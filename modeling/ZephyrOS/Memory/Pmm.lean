import ZephyrOS.Core.Errors
import ZephyrOS.Lib.Loop
import ZephyrOS.Lib.Bits

/-!
# The physical memory manager

The page allocator of `memory.c`. Pages are tracked twice in low memory: one bit
a page in `bitmap` (set = not free) and, right behind it, a packed three-bit
owner tag a page. The state carries the byte memory both live in and the address
of each, so a tag that crosses a byte boundary, or a table that ran into its
neighbour, would show.

`memory_init` stops the machine through `panic_memory` when it does not like the
firmware's map; here it returns the text it stops with.
-/

namespace ZephyrOS.Memory

def pageSize : Nat := 4096
def kernelStart : Nat := 0x00100000
def kernelEnd : Nat := 0x00800000
def heapStart : Nat := 0x01000000
def heapSize : Nat := 0x00400000
def physicalIdentityStart : Nat := heapStart + heapSize
def minPhysicalMemory : Nat := 0x02000000
def firmwareTopReserve : Nat := 0x00020000
def minUsableMemoryEnd : Nat := minPhysicalMemory - firmwareTopReserve
def pmmBitmapStorageStart : Nat := 0x00088000
def pmmBitmapStorageEnd : Nat := 0x00098000
def kernelStackTop : Nat := 0x0009F000
def maxPhysicalAddress : Nat := 0xFFFFFFFF

def pmmZoneTagBits : Nat := 3
def pmmZoneTagMask : Nat := 7
def pmmZoneTagFree : Nat := 0
def pmmZoneTagReservedKernel : Nat := 1
def pmmZoneTagReservedHeap : Nat := 2
def pmmZoneTagKernel : Nat := 3
def pmmZoneTagSlab : Nat := 4
def pmmZoneTagProcess : Nat := 5
def pmmZoneTagBuffer : Nat := 6

def pmmZoneStorageBits (totalPages : Nat) : Nat := u32 (totalPages * pmmZoneTagBits)
def pmmZoneStorageBytes (totalPages : Nat) : Nat := u32 (pmmZoneStorageBits totalPages + 7) / 8
def pmmZoneStorageCapacity : Nat := pmmBitmapStorageEnd - pmmBitmapStorageStart

/-- `memory_zone_t`; `count` is the source's `MEMORY_ZONE_COUNT`, which
`pmm_tag_to_zone` returns for a tag no zone has. -/
inductive MemoryZone where
  | kernel | heap | slab | process | buffer | free | count
  deriving DecidableEq, Repr

/-- One entry of the firmware's E820 map. -/
structure MmapEntry where
  baseLow : UInt32
  baseHigh : UInt32
  lengthLow : UInt32
  lengthHigh : UInt32
  type : UInt32
  deriving DecidableEq, Repr

def MmapEntry.base (e : MmapEntry) : Nat := e.baseHigh.toNat * 4294967296 + e.baseLow.toNat
def MmapEntry.length (e : MmapEntry) : Nat := e.lengthHigh.toNat * 4294967296 + e.lengthLow.toNat

/-- `base + length` in 64 bits. -/
def MmapEntry.end (e : MmapEntry) : Nat := (e.base + e.length) % 18446744073709551616

/-- `mem_info` with the `pmm_*` statics, and the memory their tables live in. -/
structure MemInfo where
  totalMemory : Nat
  freeMemory : Nat
  usedMemory : Nat
  totalPages : Nat
  freePages : Nat
  bitmapSize : Nat
  bitmap : Nat
  mmap : List MmapEntry
  pmmOwnerBitmap : Nat
  pmmOwnerBitmapSize : Nat
  pmmOwnedPages : Nat
  pmmAllocationFailures : Nat
  pmmInvalidFrees : Nat
  mem : Nat → UInt8

def alignUp (value alignment : Nat) : Nat :=
  if alignment = 0 ∨ 4294967295 - (alignment - 1) < value then 0
  else (value + alignment - 1) / alignment * alignment

/-! ### Tags -/

/-- The one or two bytes a tag lies in, as `pmm_get_page_tag` reads them. -/
def tagBytes (mem : Nat → UInt8) (owner page : Nat) : Nat :=
  let byteOffset := page * pmmZoneTagBits / 8
  if 5 < page * pmmZoneTagBits % 8 then
    (mem (owner + byteOffset)).toNat ||| ((mem (owner + byteOffset + 1)).toNat <<< 8)
  else (mem (owner + byteOffset)).toNat

def getPageTag (mem : Nat → UInt8) (owner page : Nat) : Nat :=
  (tagBytes mem owner page >>> (page * pmmZoneTagBits % 8)) &&& pmmZoneTagMask

def setPageTag (mem : Nat → UInt8) (owner page tag : Nat) : Nat → UInt8 :=
  let byteOffset := page * pmmZoneTagBits / 8
  let shift := page * pmmZoneTagBits % 8
  let mask := pmmZoneTagMask <<< shift
  let value := (tagBytes mem owner page &&& (0xFFFF ^^^ mask))
    ||| ((tag &&& pmmZoneTagMask) <<< shift)
  let mem' := Function.update mem (owner + byteOffset) (UInt8.ofNat value)
  if 5 < shift then Function.update mem' (owner + byteOffset + 1) (UInt8.ofNat (value >>> 8))
  else mem'

def MemInfo.pmmGetPageTag (s : MemInfo) (page : Nat) : Nat :=
  getPageTag s.mem s.pmmOwnerBitmap page

def pmmTagToZone (tag : Nat) : MemoryZone :=
  if tag = pmmZoneTagReservedKernel ∨ tag = pmmZoneTagKernel then .kernel
  else if tag = pmmZoneTagReservedHeap then .heap
  else if tag = pmmZoneTagSlab then .slab
  else if tag = pmmZoneTagProcess then .process
  else if tag = pmmZoneTagBuffer then .buffer
  else if tag = pmmZoneTagFree then .free
  else .count

def pmmZoneToTag : MemoryZone → Nat
  | .kernel => pmmZoneTagKernel
  | .slab => pmmZoneTagSlab
  | .process => pmmZoneTagProcess
  | .buffer => pmmZoneTagBuffer
  | _ => pmmZoneTagFree

def pmmZoneIsAllocatable (zone : MemoryZone) : Bool :=
  zone = .kernel ∨ zone = .slab ∨ zone = .process ∨ zone = .buffer

/-- The tags of pages the allocator has handed out. -/
def ownedTag (tag : Nat) : Bool := pmmZoneTagKernel ≤ tag ∧ tag ≤ pmmZoneTagBuffer

def MemInfo.pmmPageIsOwned (s : MemInfo) (page : Nat) : Bool := ownedTag (s.pmmGetPageTag page)

/-- `bitmap[page / 8] & (1U << (page % 8))`. -/
def pageBit (mem : Nat → UInt8) (bitmap page : Nat) : Bool :=
  (mem (bitmap + page / 8)).toNat.testBit (page % 8)

def MemInfo.pmmPageIsFree (s : MemInfo) (page : Nat) : Bool := !pageBit s.mem s.bitmap page

/-! ### `memory_init` -/

def memoryRangeIsUsable (mmap : List MmapEntry) (start «end» : Nat) : Bool :=
  mmap.any fun e => e.base ≤ e.end ∧ e.type = 1 ∧ e.base ≤ start ∧ «end» ≤ e.end

/-- One round of `memory_find_total`. -/
def findTotalEntry (total : Nat) (e : MmapEntry) : Nat :=
  if e.type ≠ 1 ∨ maxPhysicalAddress < e.base ∨ e.end ≤ e.base then total
  else
    let «end» := min e.end maxPhysicalAddress / pageSize * pageSize
    if total < «end» then «end» else total

def memoryFindTotal (mmap : List MmapEntry) : Nat := mmap.foldl findTotalEntry 0

/-- One round of `memory_mark_usable`: the whole pages of a usable entry. -/
def markEntryUsable (bitmap totalPages : Nat) (mem : Nat → UInt8) (e : MmapEntry) : Nat → UInt8 :=
  if e.type ≠ 1 then mem
  else if maxPhysicalAddress < e.base ∨ e.end ≤ e.base then mem
  else
    let «end» := min e.end maxPhysicalAddress / pageSize * pageSize
    let base := (e.base + pageSize - 1) / pageSize * pageSize
    if «end» ≤ base then mem
    else
      let startPage := base / pageSize
      let endPage := min («end» / pageSize) totalPages
      Lib.forRange startPage (fun p m => Lib.clearBit m bitmap p) (endPage - startPage) mem

def memoryMarkUsable (bitmap totalPages : Nat) (mmap : List MmapEntry) (mem : Nat → UInt8) :
    Nat → UInt8 :=
  mmap.foldl (markEntryUsable bitmap totalPages) mem

def memoryReserveRange (bitmap totalPages start «end» : Nat) (mem : Nat → UInt8) : Nat → UInt8 :=
  let startPage := start / pageSize
  let alignedEnd := alignUp «end» pageSize
  if alignedEnd = 0 ∨ «end» ≤ start then mem
  else
    let endPage := min (alignedEnd / pageSize) totalPages
    Lib.forRange startPage (fun p m => Lib.setBit m bitmap p) (endPage - startPage) mem

def memoryInitializePageZones (bitmap owner totalPages : Nat) (mem : Nat → UInt8) : Nat → UInt8 :=
  let heapStartPage := heapStart / pageSize
  let heapEndPage := min ((heapStart + heapSize) / pageSize) totalPages
  let mem := Lib.forRange 0 (fun page m =>
    setPageTag m owner page
      (if pageBit m bitmap page then pmmZoneTagReservedKernel else pmmZoneTagFree)) totalPages mem
  Lib.forRange heapStartPage (fun page m => setPageTag m owner page pmmZoneTagReservedHeap)
    (heapEndPage - heapStartPage) mem

/-- The counting loop of `memory_recount`. -/
def countFreePages (bitmap totalPages : Nat) (mem : Nat → UInt8) : Nat :=
  Lib.forRange 0 (fun p free => if pageBit mem bitmap p then free else u32 (free + 1)) totalPages 0

def kmemset (mem : Nat → UInt8) (addr : Nat) (v : UInt8) (size : Nat) : Nat → UInt8 :=
  fun a => if addr ≤ a ∧ a < addr + size then v else mem a

/-- The tables `memory_init` builds once it has placed them. -/
def memoryInitTables (mmap : List MmapEntry) (totalPages bitmap bitmapSize owner ownerSize : Nat)
    (mem : Nat → UInt8) : Nat → UInt8 :=
  let mem := kmemset (kmemset mem bitmap 0xFF bitmapSize) owner 0 ownerSize
  let mem := memoryMarkUsable bitmap totalPages mmap mem
  let mem := memoryReserveRange bitmap totalPages 0 physicalIdentityStart mem
  memoryInitializePageZones bitmap owner totalPages mem

def memoryInit (mmap : List MmapEntry) (mem : Nat → UInt8) : Except String MemInfo :=
  if mmap = [] then .error "Mapa E820 vazio"
  else
    let totalMemory := memoryFindTotal mmap
    let totalPages := totalMemory / pageSize
    if totalMemory < minUsableMemoryEnd then .error "ZephyrOS requer pelo menos 32 MiB"
    else if !memoryRangeIsUsable mmap pmmBitmapStorageStart kernelStackTop
        || !memoryRangeIsUsable mmap kernelStart kernelEnd
        || !memoryRangeIsUsable mmap heapStart (heapStart + heapSize) then
      .error "Layout fisico indisponivel"
    else
      let bitmapSize := alignUp ((totalPages + 7) / 8) pageSize
      let zoneStorageSize := alignUp (pmmZoneStorageBytes totalPages) pageSize
      if bitmapSize = 0 ∨ zoneStorageSize = 0 ∨ pmmZoneStorageCapacity < bitmapSize
          ∨ pmmZoneStorageCapacity - bitmapSize < zoneStorageSize then
        .error "Bitmaps do PMM excedem a memoria baixa"
      else
        let bitmap := pmmBitmapStorageStart
        let owner := bitmap + bitmapSize
        let mem := memoryInitTables mmap totalPages bitmap bitmapSize owner zoneStorageSize mem
        let freePages := countFreePages bitmap totalPages mem
        let freeMemory := u32 (freePages * pageSize)
        if freePages = 0 then .error "Nenhuma pagina livre foi encontrada"
        else .ok
          { totalMemory, freeMemory, usedMemory := sub32 totalMemory freeMemory, totalPages,
            freePages, bitmapSize, bitmap, mmap, pmmOwnerBitmap := owner,
            pmmOwnerBitmapSize := zoneStorageSize, pmmOwnedPages := 0,
            pmmAllocationFailures := 0, pmmInvalidFrees := 0, mem }

/-! ### Allocating and freeing -/

def MemInfo.pmmIsReady (s : MemInfo) : Bool :=
  s.bitmap ≠ 0 ∧ s.pmmOwnerBitmap ≠ 0 ∧ s.pmmOwnerBitmapSize ≠ 0

def MemInfo.pmmClaimPages (s : MemInfo) (firstPage count tag : Nat) : MemInfo :=
  { s with
    mem := Lib.forRange firstPage (fun page m =>
      setPageTag (Lib.setBit m s.bitmap page) s.pmmOwnerBitmap page tag) count s.mem
    pmmOwnedPages := u32 (s.pmmOwnedPages + count)
    freePages := sub32 s.freePages count
    usedMemory := u32 (s.usedMemory + count * pageSize)
    freeMemory := sub32 s.freeMemory (count * pageSize) }

/-- The checks of `pmm_validate_release`; the caller counts a refusal. -/
def MemInfo.pmmValidateRelease (s : MemInfo) (address count : Nat) : Bool :=
  if !s.pmmIsReady then false
  else if address = 0 ∨ count = 0 then false
  else if address % pageSize ≠ 0 then false
  else
    let firstPage := address / pageSize
    if s.totalPages ≤ firstPage ∨ s.totalPages - firstPage < count then false
    else (List.range count).all fun i =>
      s.pmmPageIsOwned (firstPage + i) && !s.pmmPageIsFree (firstPage + i)

def MemInfo.pmmReleasePages (s : MemInfo) (firstPage count : Nat) : MemInfo :=
  { s with
    mem := Lib.forRange firstPage (fun page m =>
      setPageTag (Lib.clearBit m s.bitmap page) s.pmmOwnerBitmap page pmmZoneTagFree) count s.mem
    pmmOwnedPages := sub32 s.pmmOwnedPages count
    freePages := u32 (s.freePages + count)
    usedMemory := sub32 s.usedMemory (count * pageSize)
    freeMemory := u32 (s.freeMemory + count * pageSize) }

def MemInfo.countAllocationFailure (s : MemInfo) : MemInfo :=
  { s with pmmAllocationFailures := u32 (s.pmmAllocationFailures + 1) }

def MemInfo.countInvalidFree (s : MemInfo) : MemInfo :=
  { s with pmmInvalidFrees := u32 (s.pmmInvalidFrees + 1) }

/-- The first page of the first run of `count` free pages. -/
def MemInfo.findFreeRun (s : MemInfo) (count : Nat) : Option Nat :=
  (List.range (s.totalPages - count + 1)).find? fun i =>
    (List.range count).all fun j => s.pmmPageIsFree (i + j)

/-- Returns the address of the run, `none` for the source's null. -/
def MemInfo.pmmAllocPagesInZone (s : MemInfo) (count : Nat) (zone : MemoryZone) :
    Option Nat × MemInfo :=
  if !s.pmmIsReady then (none, s.countAllocationFailure)
  else if !pmmZoneIsAllocatable zone then (none, s.countAllocationFailure)
  else if count = 0 ∨ s.totalPages < count then (none, s.countAllocationFailure)
  else
    match s.findFreeRun count with
    | some i => (some (u32 (i * pageSize)), s.pmmClaimPages i count (pmmZoneToTag zone))
    | none => (none, s.countAllocationFailure)

def MemInfo.pmmFreePages (s : MemInfo) (address count : Nat) : MemInfo :=
  if s.pmmValidateRelease address count then s.pmmReleasePages (address / pageSize) count
  else s.countInvalidFree

def MemInfo.pmmFreePage (s : MemInfo) (address : Nat) : MemInfo :=
  if s.pmmValidateRelease address 1 then s.pmmReleasePages (address / pageSize) 1
  else s.countInvalidFree

/-! ### `memory_get_detailed_stats` -/

structure DetailedStats where
  totalPages : Nat
  zonePages : MemoryZone → Nat
  freeRuns : Nat
  largestFreeRun : Nat
  isolatedFreePages : Nat
  fragmentationPercent : Nat

def DetailedStats.memoryRecordFreeRun (stats : DetailedStats) (runLength : Nat) : DetailedStats :=
  if runLength = 0 then stats
  else
    { stats with
      freeRuns := stats.freeRuns + 1
      isolatedFreePages :=
        if runLength = 1 then stats.isolatedFreePages + 1 else stats.isolatedFreePages
      largestFreeRun := if stats.largestFreeRun < runLength then runLength else stats.largestFreeRun }

/-- What the page loop carries: the statistics, `free_run` and `dynamic_pages`. -/
structure StatsScan where
  stats : DetailedStats
  freeRun : Nat
  dynamicPages : Nat

def MemInfo.scanPage (s : MemInfo) (page : Nat) (a : StatsScan) : Except Err StatsScan :=
  let tag := s.pmmGetPageTag page
  let zone := pmmTagToZone tag
  let freePage := s.pmmPageIsFree page
  if zone = .count ∨ (freePage ∧ zone ≠ .free) ∨ (¬ freePage ∧ zone = .free) then .error .state
  else
    let stats := { a.stats with
      zonePages := Function.update a.stats.zonePages zone (a.stats.zonePages zone + 1) }
    let dynamicPages := if ownedTag tag then a.dynamicPages + 1 else a.dynamicPages
    if freePage then .ok { stats, freeRun := a.freeRun + 1, dynamicPages }
    else .ok { stats := stats.memoryRecordFreeRun a.freeRun, freeRun := 0, dynamicPages }

def DetailedStats.zoneSum (stats : DetailedStats) : Nat :=
  stats.zonePages .kernel + stats.zonePages .heap + stats.zonePages .slab
    + stats.zonePages .process + stats.zonePages .buffer + stats.zonePages .free

def MemInfo.memoryGetDetailedStats (s : MemInfo) : Except Err DetailedStats :=
  if !s.pmmIsReady then .error .state
  else
    let stats : DetailedStats :=
      { totalPages := s.totalPages, zonePages := fun _ => 0, freeRuns := 0, largestFreeRun := 0,
        isolatedFreePages := 0, fragmentationPercent := 0 }
    match Lib.forRangeE 0 s.scanPage s.totalPages { stats, freeRun := 0, dynamicPages := 0 } with
    | .error e => .error e
    | .ok a =>
      let stats := a.stats.memoryRecordFreeRun a.freeRun
      let free := stats.zonePages .free
      if free ≠ s.freePages ∨ a.dynamicPages ≠ s.pmmOwnedPages ∨ stats.zoneSum ≠ stats.totalPages
      then .error .state
      else if free ≠ 0 then
        .ok { stats with
          fragmentationPercent := u32 (sub32 free stats.largestFreeRun * 100) / free }
      else .ok stats

end ZephyrOS.Memory
