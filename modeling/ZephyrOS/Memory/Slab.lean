import ZephyrOS.Lib.Tally
import ZephyrOS.Memory.Pmm

/-!
# The slab allocator of `memory/slab.c`

Caches of objects of one size. A cache takes runs of pages from the page allocator
and cuts each into objects; such a run is a slab. Caches and slabs live in two static
tables and are named by their index. A slab keeps its objects twice, in a bitmap of
those in use and in a list of the free ones threaded through `free_next`, and it is in
one of three doubly linked lists of its cache, by whether none, some or all of its
objects are in use.

A link of -1 is `none`. The record of a slab or a cache that is not in use is all
zeros, so its links are `some 0`. The bitmap is one bit for an object, whatever the
words they are packed in; counts of objects and slabs are bounded by the tables and
never wrap, counts of failures may.
-/

namespace ZephyrOS.Kmem

open ZephyrOS.Memory (MemInfo pageSize)
open Function

/-- `KMEM_CACHE_NAME_LENGTH`, `KMEM_CACHE_MAX`, `KMEM_SLAB_MAX`, `KMEM_SLAB_MAX_OBJECTS`
and `KMEM_SLAB_MIN_OBJECTS`. -/
def cacheNameLength : Nat := 32
def cacheMax : Nat := 16
def slabMax : Nat := 128
def maxObjects : Nat := 128
def minObjects : Nat := 8

/-- `KMEM_SLAB_STATE_EMPTY`, `KMEM_SLAB_STATE_PARTIAL` and `KMEM_SLAB_STATE_FULL`. -/
inductive SlabState where
  | stateEmpty | statePartial | stateFull
  deriving DecidableEq, Repr

/-- `kmem_slab_t`. -/
structure Slab where
  owner : Option Nat
  memory : Nat
  pages : Nat
  objectCount : Nat
  activeObjects : Nat
  freeHead : Nat
  next : Option Nat
  previous : Option Nat
  state : SlabState
  used : Bool
  allocationBitmap : Nat → Bool
  freeNext : Nat → Nat

/-- `kmemset(slab, 0, sizeof(kmem_slab_t))`. -/
def Slab.zero : Slab :=
  ⟨none, 0, 0, 0, 0, 0, some 0, some 0, .stateEmpty, false, fun _ => false, fun _ => 0⟩

/-- `struct kmem_cache`; `head` is `full_head`, `partial_head` and `empty_head`. -/
structure Cache where
  name : List UInt8
  objectSize : Nat
  alignment : Nat
  objectStride : Nat
  objectsPerSlab : Nat
  slabPages : Nat
  activeObjects : Nat
  capacity : Nat
  slabCount : Nat
  allocationFailures : Nat
  invalidFrees : Nat
  doubleFrees : Nat
  head : SlabState → Option Nat
  used : Bool

def Cache.zero : Cache := ⟨[], 0, 0, 0, 0, 0, 0, 0, 0, 0, 0, 0, fun _ => some 0, false⟩

/-- The two tables and the counters beside them, over the page allocator. -/
structure State where
  initialized : Bool
  caches : Nat → Cache
  slabs : Nat → Slab
  cacheCount : Nat
  slabCount : Nat
  globalAllocationFailures : Nat
  globalInvalidFrees : Nat
  globalDoubleFrees : Nat
  pmm : MemInfo

def State.setSlab (s : State) (i : Nat) (slab : Slab) : State :=
  { s with slabs := update s.slabs i slab }

def State.setCache (s : State) (c : Nat) (cache : Cache) : State :=
  { s with caches := update s.caches c cache }

def State.setHead (s : State) (c : Nat) (state : SlabState) (h : Option Nat) : State :=
  s.setCache c { s.caches c with head := update (s.caches c).head state h }

/-- `slab_align_up`; the mask of a power of two is a division. -/
def alignUp (value alignment : Nat) : Nat :=
  if alignment = 0 ∨ 0xFFFFFFFF - (alignment - 1) < value then 0
  else (value + alignment - 1) / alignment * alignment

/-- `slab_power_of_two`. -/
def powerOfTwo (value : Nat) : Bool := value ≠ 0 && value &&& (value - 1) == 0

/-- `slab_cache_registered`; a pointer outside the table is an index outside it. -/
def State.cacheRegistered (s : State) (c : Nat) : Bool := c < cacheMax && (s.caches c).used

/-- `slab_find_cache_slot`. -/
def State.findCacheSlot (s : State) : Option Nat :=
  (List.range cacheMax).find? fun c => !(s.caches c).used

/-- `slab_find_free_record`. -/
def State.findFreeRecord (s : State) : Option Nat :=
  (List.range slabMax).find? fun i => !(s.slabs i).used

/-- `slab_list_remove`. -/
def State.listRemove (s : State) (c i : Nat) : State :=
  let slab := s.slabs i
  let s := match slab.previous with
    | some p => s.setSlab p { s.slabs p with next := slab.next }
    | none => s.setHead c slab.state slab.next
  let s := match slab.next with
    | some n => s.setSlab n { s.slabs n with previous := slab.previous }
    | none => s
  s.setSlab i { s.slabs i with next := none, previous := none }

/-- `slab_list_add`. -/
def State.listAdd (s : State) (c i : Nat) (state : SlabState) : State :=
  let head := (s.caches c).head state
  let s := s.setSlab i { s.slabs i with state := state, previous := none, next := head }
  let s := match head with
    | some h => s.setSlab h { s.slabs h with previous := some i }
    | none => s
  s.setHead c state (some i)

/-- The record `slab_prepare_record` fills in. -/
def freshSlab (c : Nat) (cache : Cache) (memory : Nat) : Slab :=
  { owner := some c
    memory
    pages := cache.slabPages
    objectCount := cache.objectsPerSlab
    activeObjects := 0
    freeHead := 0
    next := none
    previous := none
    state := .stateEmpty
    used := true
    allocationBitmap := fun _ => false
    freeNext := fun i =>
      if i < cache.objectsPerSlab then
        if i + 1 < cache.objectsPerSlab then i + 1 else maxObjects
      else 0 }

/-- `slab_prepare_record`. -/
def State.prepareRecord (s : State) (c : Nat) : Except Err Unit × State :=
  match s.findFreeRecord with
  | none => (.error .unavailable, s)
  | some i =>
    let cache := s.caches c
    match s.pmm.pmmAllocPagesInZone cache.slabPages .slab with
    | (none, pmm) => (.error .mem, { s with pmm })
    | (some memory, pmm) =>
      let s := { s with pmm }.setSlab i (freshSlab c cache memory)
      let s := s.listAdd c i .stateEmpty
      let cache := s.caches c
      let s := s.setCache c { cache with
        slabCount := cache.slabCount + 1
        capacity := cache.capacity + cache.objectsPerSlab }
      (.ok (), { s with slabCount := s.slabCount + 1 })

/-- `slab_object_location`: the slab and the index of an object. -/
def State.objectLocation (s : State) (c object : Nat) : Option (Nat × Nat) :=
  let stride := (s.caches c).objectStride
  if object = 0 ∨ stride = 0 then none
  else
    let inside (i : Nat) : Bool :=
      let slab := s.slabs i
      let stop := u32 (slab.memory + u32 (stride * slab.objectCount))
      slab.used && slab.owner == some c && slab.memory ≤ object && object < stop
    match (List.range slabMax).find? inside with
    | none => none
    | some i =>
      let offset := object - (s.slabs i).memory
      if offset % stride ≠ 0 then none
      else if offset / stride < (s.slabs i).objectCount then some (i, offset / stride)
      else none

/-- `kmem_cache_init`. -/
def kmemCacheInit (s : State) : State :=
  if s.initialized then s
  else
    { s with
      initialized := true
      caches := fun _ => Cache.zero
      slabs := fun _ => Slab.zero
      cacheCount := 0
      slabCount := 0
      globalAllocationFailures := 0
      globalInvalidFrees := 0
      globalDoubleFrees := 0 }

/-- The objects and pages of a slab for a stride, unless `kmem_cache_create` refuses it. -/
def slabGeometry (stride : Nat) : Option (Nat × Nat) :=
  if stride = 0 ∨ 0xFFFFFFFF / minObjects < stride then none
  else
    let requiredBytes := stride * minObjects
    if 0xFFFFFFFF - (pageSize - 1) < requiredBytes then none
    else
      let pages := (requiredBytes + pageSize - 1) / pageSize
      if pages = 0 ∨ 0xFFFFFFFF / pageSize < pages then none
      else
        let objects := min (pages * pageSize / stride) maxObjects
        if objects < minObjects then none else some (objects, pages)

/-- `kmem_cache_create`. -/
def kmemCacheCreate (name : List UInt8) (objectSize alignment : Nat) (s : State) :
    Option Nat × State :=
  if s.initialized = false then (none, s)
  else if name = [] ∨ objectSize = 0 ∨ powerOfTwo alignment = false ∨ pageSize < alignment then
    (none, s)
  else if 0xFFFFFFFF - alignment + 1 < objectSize then (none, s)
  else
    let stride := alignUp objectSize alignment
    match slabGeometry stride with
    | none => (none, s)
    | some (objects, pages) =>
      match s.findCacheSlot with
      | none => (none, s)
      | some slot =>
        if cacheMax ≤ s.cacheCount then (none, s)
        else if (List.range cacheMax).any fun c => (s.caches c).used && (s.caches c).name == name then
          (none, s)
        else
          let s := s.setCache slot { Cache.zero with
            name := name.take (cacheNameLength - 1)
            objectSize
            alignment
            objectStride := stride
            objectsPerSlab := objects
            slabPages := pages
            head := fun _ => none
            used := true }
          (some slot, { s with cacheCount := s.cacheCount + 1 })

def State.countAllocationFailure (s : State) (c : Nat) : State :=
  { s.setCache c { s.caches c with
      allocationFailures := u32 ((s.caches c).allocationFailures + 1) } with
    globalAllocationFailures := u32 (s.globalAllocationFailures + 1) }

/-- The first free object of slab `i` is put in use, and the slab moves to its list. -/
def State.takeObject (s : State) (c i : Nat) : Nat × State :=
  let slab := s.slabs i
  let k := slab.freeHead
  if slab.objectCount ≤ k then (0, s.countAllocationFailure c)
  else
    let s := s.setSlab i { slab with
      freeHead := slab.freeNext k
      allocationBitmap := update slab.allocationBitmap k true
      activeObjects := slab.activeObjects + 1 }
    let s := s.setCache c { s.caches c with activeObjects := (s.caches c).activeObjects + 1 }
    let s :=
      if slab.activeObjects + 1 = 1 then (s.listRemove c i).listAdd c i .statePartial else s
    let s :=
      if slab.activeObjects + 1 = slab.objectCount then (s.listRemove c i).listAdd c i .stateFull
      else s
    (slab.memory + k * (s.caches c).objectStride, s)

/-- The slab `kmem_cache_alloc` takes an object from, which may be a new one. -/
def State.chooseSlab (s : State) (c : Nat) : Option Nat × State :=
  match (s.caches c).head .statePartial with
  | some i => (some i, s)
  | none =>
    match (s.caches c).head .stateEmpty with
    | some i => (some i, s)
    | none =>
      match s.prepareRecord c with
      | (.error _, s) => (none, s)
      | (.ok (), s) => ((s.caches c).head .stateEmpty, s)

/-- `kmem_cache_alloc`; `pagingReady` is what `paging_is_ready` answers. -/
def kmemCacheAlloc (pagingReady : Bool) (c : Nat) (s : State) : Nat × State :=
  if s.initialized = false ∨ s.cacheRegistered c = false then
    (0, { s with globalAllocationFailures := u32 (s.globalAllocationFailures + 1) })
  else if pagingReady = false then (0, s.countAllocationFailure c)
  else
    match s.chooseSlab c with
    | (none, s) => (0, s.countAllocationFailure c)
    | (some i, s) => if slabMax ≤ i then (0, s.countAllocationFailure c) else s.takeObject c i

def State.countInvalidFree (s : State) (c : Nat) : State :=
  { s.setCache c { s.caches c with invalidFrees := u32 ((s.caches c).invalidFrees + 1) } with
    globalInvalidFrees := u32 (s.globalInvalidFrees + 1) }

def State.countDoubleFree (s : State) (c : Nat) : State :=
  { s.setCache c { s.caches c with doubleFrees := u32 ((s.caches c).doubleFrees + 1) } with
    globalDoubleFrees := u32 (s.globalDoubleFrees + 1) }

/-- Object `k` of slab `i` is put back, and the slab moves to its list. -/
def State.putObject (s : State) (c i k : Nat) : State :=
  let previousState := (s.slabs i).state
  let s :=
    if previousState = .stateFull ∨
        (previousState = .statePartial ∧ (s.slabs i).activeObjects = 1) then s.listRemove c i
    else s
  let slab := s.slabs i
  let s := s.setSlab i { slab with
    allocationBitmap := update slab.allocationBitmap k false
    freeNext := update slab.freeNext k slab.freeHead
    freeHead := k
    activeObjects := slab.activeObjects - 1 }
  let s := s.setCache c { s.caches c with activeObjects := (s.caches c).activeObjects - 1 }
  if slab.activeObjects - 1 = 0 then s.listAdd c i .stateEmpty
  else if previousState = .stateFull then s.listAdd c i .statePartial
  else s

/-- `kmem_cache_free`. -/
def kmemCacheFree (c object : Nat) (s : State) : State :=
  if s.initialized = false ∨ s.cacheRegistered c = false ∨ object = 0 then
    { s with globalInvalidFrees := u32 (s.globalInvalidFrees + 1) }
  else
    match s.objectLocation c object with
    | none => s.countInvalidFree c
    | some (i, k) =>
      let slab := s.slabs i
      if slab.activeObjects = 0 ∨ slab.objectCount < slab.activeObjects then s.countInvalidFree c
      else if slab.allocationBitmap k = false then s.countDoubleFree c
      else s.putObject c i k

/-- One round of the loop of `kmem_cache_destroy`. -/
def State.destroySlab (c i : Nat) (s : State) : State :=
  if (s.slabs i).used = false ∨ (s.slabs i).owner ≠ some c then s
  else
    let s := s.listRemove c i
    let s := { s with pmm := s.pmm.pmmFreePages (s.slabs i).memory (s.slabs i).pages }
    let s := s.setSlab i Slab.zero
    { s with slabCount := s.slabCount - 1 }

/-- `kmem_cache_destroy`. -/
def kmemCacheDestroy (c : Nat) (s : State) : Except Err Unit × State :=
  if s.initialized = false ∨ s.cacheRegistered c = false then (.error .invalid, s)
  else if (s.caches c).activeObjects ≠ 0 then (.error .state, s)
  else
    let s := Lib.forRange 0 (State.destroySlab c) slabMax s
    let s := s.setCache c Cache.zero
    (.ok (), { s with cacheCount := s.cacheCount - 1 })

/-! ### `kmem_cache_validate` -/

/-- The walk along the free list of `slab_validate_slab`: the number of nodes and the bitmap
of those seen, if no node is out of range, in use or met before. -/
def Slab.walkFree (slab : Slab) : Nat → Nat → Nat → (Nat → Bool) → Option (Nat × Nat × (Nat → Bool))
  | 0, current, count, seen => some (current, count, seen)
  | rounds + 1, current, count, seen =>
    if current = maxObjects then some (current, count, seen)
    else if slab.objectCount ≤ current ∨ slab.allocationBitmap current then none
    else if seen current then none
    else
      slab.walkFree rounds (slab.freeNext current) (count + 1) (update seen current true)

/-- `slab_validate_slab`. -/
def Slab.valid (slab : Slab) : Bool :=
  if slab.used = false ∨ slab.owner = none ∨ slab.memory = 0 ∨ slab.objectCount < minObjects ∨
      maxObjects < slab.objectCount ∨ slab.pages = 0 then false
  else
    let active := Lib.countIf slab.objectCount slab.allocationBitmap
    match slab.walkFree (slab.objectCount + 1) slab.freeHead 0 fun _ => false with
    | none => false
    | some (current, freeCount, seen) =>
      if current ≠ maxObjects ∨ active + freeCount ≠ slab.objectCount ∨
          active ≠ slab.activeObjects then false
      else if (List.range slab.objectCount).any fun i => !slab.allocationBitmap i && !seen i then false
      else if (active = 0 ∧ slab.state ≠ .stateEmpty) ∨
          (0 < active ∧ active < slab.objectCount ∧ slab.state ≠ .statePartial) ∨
          (active = slab.objectCount ∧ slab.state ≠ .stateFull) then false
      else true

/-- `slab_validate_list`, for at most `rounds` nodes. -/
def State.validList (s : State) (c : Nat) (state : SlabState) (expected : Nat) :
    Nat → Option Nat → Option Nat → Nat → Bool
  | _, _, none, count => count == expected
  | 0, _, some _, _ => false
  | rounds + 1, previous, some i, count =>
    if slabMax ≤ i then false
    else
      let slab := s.slabs i
      if slab.used = false ∨ slab.owner ≠ some c ∨ slab.state ≠ state ∨ slab.previous ≠ previous then
        false
      else s.validList c state expected rounds (some i) slab.next (count + 1)

/-- Whether slab `i` is one of cache `c`. -/
def State.owned (s : State) (c i : Nat) : Bool := (s.slabs i).used && (s.slabs i).owner == some c

/-- The checks of `kmem_cache_validate` on one cache. -/
def State.validCache (s : State) (c : Nat) : Bool :=
  let count (state : SlabState) := Lib.countIf slabMax fun i => s.owned c i && (s.slabs i).state == state
  let list (state : SlabState) :=
    s.validList c state (count state) (slabMax + 1) none ((s.caches c).head state) 0
  list .stateFull && list .statePartial && list .stateEmpty &&
    Lib.tally slabMax (fun i => if s.owned c i then (s.slabs i).activeObjects else 0)
      == (s.caches c).activeObjects &&
    Lib.tally slabMax (fun i => if s.owned c i then (s.slabs i).objectCount else 0)
      == (s.caches c).capacity &&
    Lib.countIf slabMax (s.owned c) == (s.caches c).slabCount

/-- `kmem_cache_validate`. -/
def kmemCacheValidate (s : State) : Except Err Unit :=
  if s.initialized = false then .error .unavailable
  else if (List.range slabMax).any fun i => (s.slabs i).used && !(s.slabs i).valid then .error .state
  else if (List.range cacheMax).any fun c => (s.caches c).used && !s.validCache c then .error .state
  else if Lib.countIf cacheMax (fun c => (s.caches c).used) ≠ s.cacheCount ∨
      Lib.tally cacheMax (fun c =>
        if (s.caches c).used then Lib.countIf slabMax (s.owned c) else 0) ≠ s.slabCount then
    .error .state
  else .ok ()

end ZephyrOS.Kmem
