import Mathlib.Logic.Function.Basic
import ZephyrOS.Core.Errors

/-!
# The kernel heap of `memory/memory.c`

Four megabytes at a fixed address, cut into blocks that follow one another: a header
of six words, then the payload. The headers form a doubly linked list in address
order. `kmalloc` takes the first free block that is large enough and splits off the
rest when enough of it is left for a block of its own; `kfree` joins a block with its
free neighbours.

`kmalloc_aligned` asks for a page and eight bytes more than it needs, and hands out
the first page boundary after the first eight bytes of the payload. The two words
before that boundary hold a mark and the address of the header, and `user_ptr` in the
header says which address was handed out.

Memory is a function from addresses to 32-bit words, read and written at multiples
of four, so a header, a hidden mark and the bytes of a client are the same cells. A
null pointer is 0.
-/

namespace ZephyrOS.Heap

open Function

/-- `HEAP_START`. -/
def heapStart : Nat := 0x01000000

/-- `HEAP_SIZE`. -/
def heapSize : Nat := 0x00400000

/-- `HEAP_END`. -/
def heapEnd : Nat := 0x01400000

/-- `sizeof(heap_block_t)`. -/
def headerSize : Nat := 24

/-- `HEAP_MAGIC`, `HEAP_MAGIC_ALIGNED` and `HEAP_MAGIC_FREED`. -/
def magic : Nat := 0x48454150
def magicAligned : Nat := 0x414C4947
def magicFreed : Nat := 0x46524545

abbrev Memory := Nat → Nat

/-- `heap_block_t` as it lies in memory. -/
structure Header where
  magic : Nat
  size : Nat
  free : Nat
  next : Nat
  prev : Nat
  userPtr : Nat
  deriving DecidableEq

def header (mem : Memory) (block : Nat) : Header :=
  ⟨mem block, mem (block + 4), mem (block + 8), mem (block + 12), mem (block + 16), mem (block + 20)⟩

def setMagic (mem : Memory) (block v : Nat) : Memory := update mem block v
def setSize (mem : Memory) (block v : Nat) : Memory := update mem (block + 4) v
def setFree (mem : Memory) (block v : Nat) : Memory := update mem (block + 8) v
def setNext (mem : Memory) (block v : Nat) : Memory := update mem (block + 12) v
def setPrev (mem : Memory) (block v : Nat) : Memory := update mem (block + 16) v
def setUserPtr (mem : Memory) (block v : Nat) : Memory := update mem (block + 20) v

/-- All six fields of a header. -/
def setHeader (mem : Memory) (block : Nat) (h : Header) : Memory :=
  setUserPtr (setPrev (setNext (setFree (setSize (setMagic mem block h.magic) block h.size) block
    h.free) block h.next) block h.prev) block h.userPtr

/-- The heap and its counters; `base` is 0 before the first allocation. -/
structure State where
  mem : Memory
  base : Nat
  allocationFailures : Nat
  invalidFrees : Nat
  doubleFrees : Nat

def State.fail (s : State) : State := { s with allocationFailures := u32 (s.allocationFailures + 1) }

/-- `heap_range_contains`. -/
def rangeContains (address size : Nat) : Bool :=
  heapStart ≤ address && address ≤ heapEnd && size ≤ heapEnd - address

/-- `heap_align_size`. -/
def alignSize (size : Nat) : Nat := if 0xFFFFFFFF - 7 < size then 0 else (size + 7) / 8 * 8

/-- `align_up` to a page. -/
def alignPage (value : Nat) : Nat :=
  if 0xFFFFFFFF - 4095 < value then 0 else (value + 4095) / 4096 * 4096

/-- `heap_block_is_consistent`. -/
def blockIsConsistent (mem : Memory) (block expectedPrev : Nat) : Bool :=
  let h := header mem block
  let payload := block + headerSize
  if block = 0 ∨ rangeContains block headerSize = false then false
  else if h.magic ≠ magic ∨ (h.free ≠ 0 ∧ h.free ≠ 1) ∨ h.prev ≠ expectedPrev then false
  else if rangeContains payload h.size = false then false
  else if h.free ≠ 0 ∧ h.userPtr ≠ 0 then false
  else if h.free = 0 ∧ (h.userPtr = 0 ∨ h.userPtr < payload ∨ payload + h.size ≤ h.userPtr) then false
  else if h.next = 0 then payload + h.size == heapEnd
  else payload + h.size < heapEnd && h.next == payload + h.size && rangeContains h.next headerSize

/-- `heap_initialize`. -/
def heapInitialize (s : State) : State :=
  if s.base ≠ 0 then s
  else { s with
    base := heapStart
    mem := setHeader s.mem heapStart ⟨magic, heapSize - headerSize, 1, 0, 0, 0⟩ }

/-- The address of a neighbour is followed only if there is one. -/
def relink (mem : Memory) (block prev : Nat) : Memory :=
  if block = 0 then mem else setPrev mem block prev

/-- What `kmalloc_internal` does with the block it has chosen. -/
def take (mem : Memory) (curr alignedSize : Nat) : Memory :=
  let h := header mem curr
  let mem :=
    if headerSize + 16 ≤ h.size - alignedSize then
      let new := curr + headerSize + alignedSize
      let mem := setHeader mem new ⟨magic, h.size - alignedSize - headerSize, 1, h.next, curr, 0⟩
      let mem := relink mem h.next new
      setSize (setNext mem curr new) curr alignedSize
    else mem
  setUserPtr (setFree mem curr 0) curr (curr + headerSize)

/-- The loop of `kmalloc_internal`, for at most `rounds` blocks. -/
def kmallocLoop (alignedSize : Nat) : Nat → Nat → Nat → State → Nat × State
  | 0, _, _, s => (0, s.fail)
  | rounds + 1, previous, curr, s =>
    let h := header s.mem curr
    if curr = 0 then (0, s.fail)
    else if blockIsConsistent s.mem curr previous = false then (0, s.fail)
    else if h.free ≠ 0 ∧ alignedSize ≤ h.size then
      (curr + headerSize, { s with mem := take s.mem curr alignedSize })
    else kmallocLoop alignedSize rounds curr h.next s

/-- `kmalloc_internal`, which is all of `kmalloc`. -/
def kmalloc (size : Nat) (s : State) : Nat × State :=
  if size = 0 ∨ heapSize - headerSize < size then (0, s.fail)
  else
    let alignedSize := alignSize size
    if alignedSize = 0 ∨ heapSize - headerSize < alignedSize then (0, s.fail)
    else
      let s := heapInitialize s
      kmallocLoop alignedSize (heapSize / headerSize + 1) 0 s.base s

/-- `heap_block_matches`. -/
def blockMatches (mem : Memory) (block userPtr : Nat) : Bool :=
  let h := header mem block
  let payload := block + headerSize
  if block = 0 ∨ userPtr = 0 ∨ rangeContains block headerSize = false then false
  else if h.magic ≠ magic ∨ h.userPtr ≠ userPtr then false
  else rangeContains payload h.size && payload ≤ userPtr && userPtr < payload + h.size

/-- `heap_block_from_pointer`. -/
def blockFromPointer (mem : Memory) (ptr : Nat) : Nat :=
  if ptr = 0 ∨ rangeContains ptr 1 = false then 0
  else if ptr % 4096 = 0 ∧ heapStart + 8 ≤ ptr ∧ mem (ptr - 8) = magicAligned ∧
      blockMatches mem (mem (ptr - 4)) ptr = true then mem (ptr - 4)
  else if ptr < heapStart + headerSize then 0
  else if blockMatches mem (ptr - headerSize) ptr then ptr - headerSize
  else 0

/-- `heap_pointer_was_freed`. -/
def pointerWasFreed (mem : Memory) (ptr : Nat) : Bool :=
  if ptr = 0 ∨ rangeContains ptr 1 = false then false
  else if ptr % 4096 = 0 ∧ heapStart + 8 ≤ ptr ∧ mem (ptr - 8) = magicAligned ∧
      rangeContains (mem (ptr - 4)) headerSize = true ∧ mem (mem (ptr - 4)) = magicFreed then true
  else if ptr < heapStart + headerSize then false
  else rangeContains (ptr - headerSize) headerSize && mem (ptr - headerSize) == magicFreed

/-- `heap_merge_next`. -/
def mergeNext (mem : Memory) (block : Nat) : Memory :=
  let h := header mem block
  let n := header mem h.next
  if h.next = 0 ∨ n.free = 0 then mem
  else if n.magic ≠ magic then mem
  else
    let mem := setSize mem block (u32 (h.size + headerSize + n.size))
    let mem := setNext mem block n.next
    let mem := relink mem n.next block
    setHeader mem h.next ⟨magicFreed, 0, 1, 0, 0, 0⟩

/-- The part of `kfree` that follows the checks. -/
def release (mem : Memory) (block : Nat) : Memory :=
  let mem := setUserPtr (setFree mem block 1) block 0
  let mem := mergeNext mem block
  let prev := (header mem block).prev
  if prev ≠ 0 ∧ (header mem prev).magic = magic ∧ (header mem prev).free ≠ 0 then
    mergeNext mem prev
  else mem

/-- `kfree`. -/
def kfree (ptr : Nat) (s : State) : State :=
  if ptr = 0 then s
  else
    let block := blockFromPointer s.mem ptr
    if block = 0 then
      if pointerWasFreed s.mem ptr then { s with doubleFrees := u32 (s.doubleFrees + 1) }
      else { s with invalidFrees := u32 (s.invalidFrees + 1) }
    else if (header s.mem block).free ≠ 0 then { s with doubleFrees := u32 (s.doubleFrees + 1) }
    else { s with mem := release s.mem block }

/-- `kmalloc_aligned`. -/
def kmallocAligned (size : Nat) (s : State) : Nat × State :=
  if size = 0 ∨ heapSize - headerSize - 4096 - 8 < size then (0, s.fail)
  else
    let (raw, s) := kmalloc (size + 4096 + 8) s
    if raw = 0 then (0, s)
    else
      let aligned := alignPage (raw + 8)
      if aligned = 0 ∨ rangeContains aligned size = false then (0, (kfree raw s).fail)
      else
        let block := raw - headerSize
        let mem := update s.mem (aligned - 8) magicAligned
        let mem := update mem (aligned - 4) block
        (aligned, { s with mem := setUserPtr mem block aligned })

end ZephyrOS.Heap
