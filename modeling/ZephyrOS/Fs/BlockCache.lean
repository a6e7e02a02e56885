import ZephyrOS.Core.Errors
import ZephyrOS.Lib.Outcome
import ZephyrOS.Lib.Linked
import ZephyrOS.Lib.Disk

/-!
# The write-back block cache

`fs/block_cache.c`: sixty-four sector buffers, found through hash chains and
aged on a doubly linked LRU list, both threaded through the entries themselves.
Links are `none` where the source has `BLOCK_CACHE_INVALID_INDEX`.

Calls are taken one after the other, each to its end. Where the source would
sleep until another task finishes an entry there is then nobody to wake it, and
the call is `blocked`; so is a loop that has not ended within its fuel.

The device below is a sector array per device whose every transfer may fail. A
write that fails may have changed the sector it was for. The outcomes come from a
stream `io`, one for each transfer in the order they are issued, and `log` records
the transfers.
-/

namespace ZephyrOS.BlockCache

open Function

def blockCacheCapacity : Nat := 64
def blockCacheHashBuckets : Nat := 64
def blockCacheBlockSize : Nat := 512
def blockDeviceIdSize : Nat := 48
def blockMaxTransferSectors : Nat := 255

/-- The characters of a device id before its terminator. -/
abbrev DeviceId := List UInt8

abbrev Sector := Lib.Sector

inductive State where
  | free | reading | valid | dirty | writeback | error
  deriving DecidableEq, Repr

/-- An entry without its links. -/
structure Block where
  deviceId : DeviceId
  lba : Nat
  blockSize : Nat
  data : Sector
  state : State
  references : Nat
  pins : Nat
  generation : Nat
  /-- `none` is `OK`. -/
  status : Option Err
  dirtyFirst : Nat
  dirtyEnd : Nat

structure Entry extends Block where
  hashNext : Option Nat
  lruPrevious : Option Nat
  lruNext : Option Nat

/-- `block_durability_state_t`. -/
inductive Durability where
  | ready | degraded | error
  deriving DecidableEq, Repr

def Durability.level : Durability → Nat
  | .ready => 0
  | .degraded => 1
  | .error => 2

/-- `durability` is the state of `block_cache_durability`; the copy of it in the statistics is
always set with it. -/
structure Cache where
  entries : Nat → Entry
  buckets : Nat → Option Nat
  lruHead : Option Nat
  lruTail : Option Nat
  syncActive : Bool
  durability : Durability

def Cache.modify (c : Cache) (i : Nat) (f : Entry → Entry) : Cache :=
  { c with entries := update c.entries i (f (c.entries i)) }

/-! ### Names, hashing -/

def blockCacheTextTerminated (text : DeviceId) : Bool := text.length < blockDeviceIdSize

def blockCacheCopyText (source : DeviceId) : DeviceId := source.take (blockDeviceIdSize - 1)

/-- One round of the hash: `(hash ^ byte) * BLOCK_CACHE_HASH_PRIME`. -/
def hashByte (hash byte : Nat) : Nat := u32 ((hash ^^^ byte) * 16777619)

def blockCacheHash (deviceId : DeviceId) (lba blockSize : Nat) : Nat :=
  let hash := (deviceId.take blockDeviceIdSize).foldl (fun h b => hashByte h b.toNat) 2166136261
  let hash := hashByte hash (lba % 256)
  let hash := hashByte hash (lba / 256 % 256)
  let hash := hashByte hash (lba / 65536 % 256)
  let hash := hashByte hash (lba / 16777216 % 256)
  let hash := hashByte hash (blockSize % 256)
  let hash := hashByte hash (blockSize / 256 % 256)
  hash % blockCacheHashBuckets

/-- The bucket an entry's own key selects. -/
def Block.bucket (b : Block) : Nat := blockCacheHash b.deviceId b.lba b.blockSize

def nextGeneration (generation : Nat) : Nat :=
  if u32 (generation + 1) = 0 then 1 else u32 (generation + 1)

/-! ### The LRU list -/

def Cache.lruRemove (c : Cache) (index : Nat) : Cache :=
  if c.lruHead ≠ some index ∧ c.lruTail ≠ some index
      ∧ (c.entries index).lruPrevious = none ∧ (c.entries index).lruNext = none then c
  else
    let c := match (c.entries index).lruPrevious with
      | some p => c.modify p fun e => { e with lruNext := (c.entries index).lruNext }
      | none => { c with lruHead := (c.entries index).lruNext }
    let c := match (c.entries index).lruNext with
      | some n => c.modify n fun e => { e with lruPrevious := (c.entries index).lruPrevious }
      | none => { c with lruTail := (c.entries index).lruPrevious }
    c.modify index fun e => { e with lruPrevious := none, lruNext := none }

def Cache.lruPushFront (c : Cache) (index : Nat) : Cache :=
  let c := c.modify index fun e => { e with lruPrevious := none, lruNext := c.lruHead }
  let c := match c.lruHead with
    | some h => c.modify h fun e => { e with lruPrevious := some index }
    | none => { c with lruTail := some index }
  { c with lruHead := some index }

def lruState (s : State) : Bool := s = .valid ∨ s = .dirty ∨ s = .error

def Cache.lruLinked (c : Cache) (index : Nat) : Bool :=
  c.lruHead = some index ∨ c.lruTail = some index
    ∨ (c.entries index).lruPrevious ≠ none ∨ (c.entries index).lruNext ≠ none

/-! ### The hash chains -/

def Cache.hashRemove (c : Cache) (index : Nat) : Cache :=
  let bucket := (c.entries index).bucket
  let next := (c.entries index).hashNext
  match Lib.walkPrev (fun i => (c.entries i).hashNext) index blockCacheCapacity none
      (c.buckets bucket) with
  | none => c
  | some previous =>
    let c := match previous with
      | none => { c with buckets := update c.buckets bucket next }
      | some p => c.modify p fun e => { e with hashNext := next }
    c.modify index fun e => { e with hashNext := none }

def Cache.hashInsert (c : Cache) (index : Nat) : Cache :=
  let bucket := (c.entries index).bucket
  let c := c.modify index fun e => { e with hashNext := c.buckets bucket }
  { c with buckets := update c.buckets bucket (some index) }

def Cache.find (c : Cache) (deviceId : DeviceId) (lba blockSize : Nat) : Option Nat :=
  Lib.walkFind (fun i => (c.entries i).hashNext)
    (fun i => (c.entries i).deviceId = deviceId ∧ (c.entries i).lba = lba
      ∧ (c.entries i).blockSize = blockSize)
    blockCacheCapacity (c.buckets (blockCacheHash deviceId lba blockSize))

/-! ### Entries -/

def Cache.markDirty (c : Cache) (index first «end» : Nat) : Cache :=
  let c := c.modify index fun e =>
    { e with
      dirtyFirst := if e.dirtyEnd = 0 ∨ first < e.dirtyFirst then first else e.dirtyFirst
      dirtyEnd := if e.dirtyEnd < «end» then «end» else e.dirtyEnd }
  let c := if c.lruLinked index then c.lruRemove index else c
  let c := c.lruPushFront index
  c.modify index fun e => { e with state := .dirty, status := none }

def Cache.release (c : Cache) (index : Nat) : Cache :=
  if (c.entries index).state = .free then c
  else
    let c := c.hashRemove index
    let c := if lruState (c.entries index).state then c.lruRemove index else c
    c.modify index fun e =>
      { e with
        deviceId := [], lba := 0, blockSize := 0, state := .free, references := 0, pins := 0,
        status := some .state, dirtyFirst := 0, dirtyEnd := 0, hashNext := none,
        lruPrevious := none, lruNext := none, generation := nextGeneration e.generation }

def Block.eligible (b : Block) : Bool :=
  b.references = 0 ∧ b.pins = 0 ∧ (b.state = .valid ∨ b.state = .error)

/-- A free entry, else the least recently used one that may be dropped. -/
def Cache.chooseVictim (c : Cache) : Option Nat :=
  match (List.range blockCacheCapacity).find? fun i => (c.entries i).state = .free with
  | some i => some i
  | none => Lib.walkFind (fun i => (c.entries i).lruPrevious) (fun i => (c.entries i).eligible)
      blockCacheCapacity c.lruTail

/-- A chosen entry made `READING` for a sector and entered in its chain. -/
def Cache.claim (c : Cache) (index : Nat) (deviceId : DeviceId) (lba : Nat) : Cache :=
  let c := c.modify index fun e =>
    { e with
      generation := nextGeneration e.generation, deviceId := blockCacheCopyText deviceId,
      lba := lba, blockSize := blockCacheBlockSize, state := .reading, references := 0, pins := 0,
      status := some .state, dirtyFirst := 0, dirtyEnd := 0, hashNext := none,
      lruPrevious := none, lruNext := none }
  c.hashInsert index

/-- The rounds of `block_cache_reserve_run_locked`, `indexes` those done so far. -/
def reserveRun (deviceId : DeviceId) (lba : Nat) : Nat → List Nat → Cache → List Nat × Cache
  | 0, indexes, c => (indexes, c)
  | n + 1, indexes, c =>
    if blockCacheCapacity ≤ indexes.length ∨ 4294967295 - lba < indexes.length then (indexes, c)
    else
      let currentLba := lba + indexes.length
      let cleared : Option Cache := match c.find deviceId currentLba blockCacheBlockSize with
        | none => some c
        | some i =>
          if (c.entries i).state = .error ∧ (c.entries i).eligible then some (c.release i)
          else none
      match cleared with
      | none => (indexes, c)
      | some c =>
        match c.chooseVictim with
        | none => (indexes, c)
        | some i =>
          let c := if (c.entries i).state ≠ .free then c.release i else c
          reserveRun deviceId lba n (indexes ++ [i]) (c.claim i deviceId currentLba)

/-! ### The device below -/

/-- What becomes of one transfer: its result, and for a failed write what it left
in the sector, if it touched it. -/
structure Io where
  result : Option Err
  torn : Option Sector

/-- The same, for a write. -/
def Io.ending (io : Io) : Lib.Ending :=
  match io.result, io.torn with
  | none, _ => .done
  | some _, none => .unchanged
  | some _, some left => .torn left

/-- A transfer that was issued, and its result. -/
inductive Transfer where
  | read (deviceId : DeviceId) (lba count : Nat) (result : Option Err)
  | write (deviceId : DeviceId) (lba : Nat) (result : Option Err)
  | flush (result : Option Err)

/-- The contents of every device. -/
abbrev Disk := DeviceId → Nat → Sector

def Disk.set (d : Disk) (deviceId : DeviceId) (lba : Nat) (data : Sector) : Disk :=
  update d deviceId (update (d deviceId) lba data)

/-- The cache over its devices, and the transfers so far. -/
structure World where
  cache : Cache
  phys : Disk
  log : List Transfer

/-- What the device makes of the next transfer. -/
def World.next (io : Nat → Io) (w : World) : Io := io w.log.length

/-- Why a call ends without its result. -/
inductive Stop where
  | err (e : Err)
  | blocked
  deriving DecidableEq, Repr

section Calls

variable (io : Nat → Io)

def World.physicalRead (w : World) (deviceId : DeviceId) (lba count : Nat) :
    Except Err (List Sector) × World :=
  let result := (w.next io).result
  let data := (List.range count).map fun k => w.phys deviceId (lba + k)
  (match result with
    | none => .ok data
    | some e => .error e,
   { w with log := w.log ++ [.read deviceId lba count result] })

def World.physicalWrite (w : World) (deviceId : DeviceId) (lba : Nat) (data : Sector) :
    Option Err × World :=
  let result := (w.next io).result
  let phys := w.phys.set deviceId lba ((w.next io).ending.leaves (w.phys deviceId lba) data)
  (result, { w with phys := phys, log := w.log ++ [.write deviceId lba result] })

def World.physicalFlush (w : World) : Option Err × World :=
  let result := (w.next io).result
  (result, { w with log := w.log ++ [.flush result] })

/-- The fields of `block_device_t` the cache looks at; `canRead` and `canWrite` say
that one of the callbacks for it is set. -/
structure Device where
  id : DeviceId
  sectorCount : UInt32
  sectorSize : Nat
  readOnly : Bool
  online : Bool
  maxTransferSectors : Nat
  canRead : Bool
  canWrite : Bool
  capFlush : Bool

/-! ### Reading -/

inductive Lookup where
  | miss
  | hit (data : Sector)
  | wait
  | error (e : Err)

/-- A hit moves the entry to the front; it is held while its data is copied out. -/
def Cache.touch (c : Cache) (index : Nat) : Cache :=
  let c := c.modify index fun e => { e with references := e.references + 1 }
  let c := (c.lruRemove index).lruPushFront index
  c.modify index fun e => { e with references := e.references - 1 }

def Cache.lookup (c : Cache) (deviceId : DeviceId) (lba : Nat) : Lookup × Cache :=
  match c.find deviceId lba blockCacheBlockSize with
  | none => (.miss, c)
  | some i =>
    match (c.entries i).state with
    | .reading | .writeback => (.wait, c)
    | .error => (.error ((c.entries i).status.getD .state), c.release i)
    | .dirty | .valid => (.hit (c.entries i).data, c.touch i)
    | .free => (.miss, c)

/-- `block_cache_complete_run`, one entry after the other. -/
def completeRun : List Nat → Except Err (List Sector) → Cache → Cache
  | [], _, c => c
  | i :: indexes, .ok sectors, c =>
    let c := c.modify i fun e =>
      { e with data := sectors.headD e.data, state := .valid, status := none }
    completeRun indexes (.ok sectors.tail) (c.lruPushFront i)
  | i :: indexes, .error e, c =>
    let c := c.modify i fun entry => { entry with status := some e }
    completeRun indexes (.error e) (c.release i)

def validateDevice (device : Device) (lba count bufferBytes : Nat) : Except Err Unit :=
  if !blockCacheTextTerminated device.id then .error .invalid
  else if device.sectorSize ≠ blockCacheBlockSize ∨ device.sectorCount = 0
      ∨ device.maxTransferSectors = 0 ∨ blockMaxTransferSectors < device.maxTransferSectors then
    .error .state
  else if !device.online then .error .disk
  else if count = 0 then .error .invalid
  else if device.maxTransferSectors < count then .error .overflow
  else if bufferBytes < count * blockCacheBlockSize then .error .invalid
  else if device.sectorCount.toNat ≤ lba ∨ device.sectorCount.toNat - lba < count then .error .disk
  else if !device.canRead then .error .state
  else .ok ()

/-- The loop of `block_cache_read`: `out` holds the sectors read so far. -/
def readLoop (deviceId : DeviceId) (lba count : Nat) :
    Nat → List Sector → World → Except Stop (List Sector) × World
  | 0, _, w => (.error .blocked, w)
  | fuel + 1, out, w =>
    if count ≤ out.length then (.ok out, w)
    else
      match w.cache.lookup deviceId (lba + out.length) with
      | (.hit data, c) => readLoop deviceId lba count fuel (out ++ [data]) { w with cache := c }
      | (.wait, c) => (.error .blocked, { w with cache := c })
      | (.error e, c) => (.error (.err e), { w with cache := c })
      | (.miss, c) =>
        let remaining := min (count - out.length) blockCacheCapacity
        let (indexes, c) := reserveRun deviceId (lba + out.length) remaining [] c
        let w := { w with cache := c }
        if indexes = [] then
          -- no entry to be had: the sector goes past the cache
          match w.physicalRead io deviceId (lba + out.length) 1 with
          | (.error e, w) => (.error (.err e), w)
          | (.ok sectors, w) => readLoop deviceId lba count fuel (out ++ sectors) w
        else
          match w.physicalRead io deviceId (lba + out.length) indexes.length with
          | (.error e, w) =>
            (.error (.err e), { w with cache := completeRun indexes (.error e) w.cache })
          | (.ok sectors, w) =>
            readLoop deviceId lba count fuel (out ++ sectors)
              { w with cache := completeRun indexes (.ok sectors) w.cache }

def blockCacheRead (device : Device) (lba count bufferBytes : Nat) (w : World) :
    Except Stop (List Sector) × World :=
  match validateDevice device lba count bufferBytes with
  | .error e => (.error (.err e), w)
  | .ok () => readLoop io device.id lba count (count + 1) [] w

/-! ### Writing -/

/-- The number of sectors a write touches. -/
def validateWriteDevice (device : Device) (lba byteOffset size : Nat) : Except Err Nat :=
  if size = 0 ∨ blockCacheBlockSize ≤ byteOffset then .error .invalid
  else if 4294967295 - size < byteOffset then .error .overflow
  else if 4294967295 - (blockCacheBlockSize - 1) < byteOffset + size then .error .overflow
  else
    let sectors := (byteOffset + size + blockCacheBlockSize - 1) / blockCacheBlockSize
    if !blockCacheTextTerminated device.id then .error .invalid
    else if device.sectorSize ≠ blockCacheBlockSize ∨ device.sectorCount = 0
        ∨ device.maxTransferSectors = 0 ∨ blockMaxTransferSectors < device.maxTransferSectors then
      .error .state
    else if !device.online then .error .disk
    else if device.readOnly ∨ !device.canWrite then .error .unavailable
    else if device.sectorCount.toNat ≤ lba ∨ device.sectorCount.toNat - lba < sectors then
      .error .disk
    else if device.maxTransferSectors < sectors then .error .overflow
    else .ok sectors

/-- `kmemcpy(data + first, source, copied)`. -/
def overlay (data : Sector) (first copied : Nat) (source : Nat → UInt8) : Sector :=
  fun i => if first ≤ i.val ∧ i.val < first + copied then source (i.val - first) else data i

/-- A sector that is not cached: take an entry, and read what the write leaves of
the old contents unless it covers them all. -/
def writeMiss (deviceId : DeviceId) (lba first copied : Nat) (source : Nat → UInt8) (w : World) :
    Except Stop Unit × World :=
  match reserveRun deviceId lba 1 [] w.cache with
  | ([i], c) =>
    let c := c.modify i fun e => { e with pins := 1 }
    if first = 0 ∧ copied = blockCacheBlockSize then
      let c := c.modify i fun e => { e with data := fun k => source k.val }
      let c := c.markDirty i 0 blockCacheBlockSize
      (.ok (), { w with cache := c.modify i fun e => { e with pins := 0 } })
    else
      match World.physicalRead io { w with cache := c } deviceId lba 1 with
      | (.ok sectors, w) =>
        let c := w.cache.modify i fun e =>
          { e with data := overlay (sectors.headD e.data) first copied source }
        let c := c.markDirty i first (first + copied)
        (.ok (), { w with cache := c.modify i fun e => { e with pins := 0 } })
      | (.error e, w) => (.error (.err e), { w with cache := w.cache.release i })
  | (_, c) => (.error (.err .state), { w with cache := c })

def writeSector (deviceId : DeviceId) (lba first copied : Nat) (source : Nat → UInt8) (w : World) :
    Except Stop Unit × World :=
  if w.cache.syncActive then (.error (.err .state), w)
  else
    match w.cache.find deviceId lba blockCacheBlockSize with
    | none => writeMiss io deviceId lba first copied source w
    | some i =>
      match (w.cache.entries i).state with
      | .reading | .writeback => (.error .blocked, w)
      | .error =>
        if (w.cache.entries i).eligible then
          writeMiss io deviceId lba first copied source { w with cache := w.cache.release i }
        else (.error (.err .state), w)
      | .valid | .dirty =>
        let c := w.cache.modify i fun e => { e with data := overlay e.data first copied source }
        (.ok (), { w with cache := c.markDirty i first (first + copied) })
      | .free => (.error (.err .state), w)

/-- The sector loop of `block_cache_write`, `n` sectors left. -/
def writeLoop (deviceId : DeviceId) (lba byteOffset size : Nat) (buffer : Nat → UInt8) :
    Nat → Nat → Nat → World → Except Stop Unit × World
  | 0, _, _, w => (.ok (), w)
  | n + 1, sector, position, w =>
    let first := if sector = 0 then byteOffset else 0
    let copied := min (size - position) (blockCacheBlockSize - first)
    match writeSector io deviceId (lba + sector) first copied (fun k => buffer (position + k)) w with
    | (.ok (), w) =>
      writeLoop deviceId lba byteOffset size buffer n (sector + 1) (position + copied) w
    | (.error e, w) => (.error e, w)

def blockCacheWrite (device : Device) (lba byteOffset : Nat) (buffer : Nat → UInt8) (size : Nat)
    (w : World) : Except Stop Unit × World :=
  match validateWriteDevice device lba byteOffset size with
  | .error e => (.error (.err e), w)
  | .ok sectors =>
    if w.cache.syncActive then (.error (.err .state), w)
    else writeLoop io device.id lba byteOffset size buffer sectors 0 0 w

/-! ### Writing back -/

def Block.matches (b : Block) (deviceId : Option DeviceId) : Bool :=
  deviceId = none ∨ deviceId = some b.deviceId

def Cache.dirtyCount (c : Cache) (deviceId : Option DeviceId) (includeWriteback : Bool) : Nat :=
  (List.range blockCacheCapacity).countP fun i =>
    ((c.entries i).state = .dirty ∨ (includeWriteback ∧ (c.entries i).state = .writeback))
      ∧ (c.entries i).matches deviceId

def Cache.selectWriteback (c : Cache) (deviceId : Option DeviceId) : Option (Nat × Cache) :=
  match (List.range blockCacheCapacity).find? fun i =>
      (c.entries i).state = .dirty ∧ (c.entries i).references = 0 ∧ (c.entries i).pins = 0
        ∧ (c.entries i).matches deviceId with
  | none => none
  | some i =>
    let c := c.lruRemove i
    some (i, c.modify i fun e =>
      { e with state := .writeback, references := e.references + 1, pins := e.pins + 1 })

/-- The entry after its transfer: clean if it went well, dirty again if not. -/
def Cache.finishWriteback (c : Cache) (index : Nat) (result : Option Err) : Cache :=
  let c := c.modify index fun e =>
    match result with
    | none => { e with state := .valid, status := none, dirtyFirst := 0, dirtyEnd := 0 }
    | some err => { e with state := .dirty, status := some err }
  let c := c.modify index fun e => { e with pins := e.pins - 1, references := e.references - 1 }
  if (c.entries index).state = .valid ∨ (c.entries index).state = .dirty then c.lruPushFront index
  else c

/-- The loop of `block_cache_writeback_step_for_device_until` with no deadline;
returns the number of sectors written and the error that ended it, if any. -/
def writebackLoop (deviceId : Option DeviceId) : Nat → Nat → World → (Nat × Option Err) × World
  | 0, written, w => ((written, none), w)
  | budget + 1, written, w =>
    match w.cache.selectWriteback deviceId with
    | none => ((written, none), w)
    | some (i, c) =>
      let w := { w with cache := c }
      let id := blockCacheCopyText (w.cache.entries i).deviceId
      match w.physicalWrite io id (w.cache.entries i).lba (w.cache.entries i).data with
      | (none, w) =>
        writebackLoop deviceId budget (written + 1)
          { w with cache := w.cache.finishWriteback i none }
      | (some e, w) =>
        ((written, some e), { w with cache := w.cache.finishWriteback i (some e) })

def blockCacheWritebackStep (budget : Nat) (w : World) : (Nat × Option Err) × World :=
  if budget = 0 then ((0, some .invalid), w)
  else writebackLoop io none budget 0 w

/-- The loop of `block_cache_sync_device_until`. -/
def syncLoop (deviceId : DeviceId) : Nat → World → Except Stop Unit × World
  | 0, w => (.error .blocked, w)
  | fuel + 1, w =>
    if w.cache.dirtyCount (some deviceId) false = 0 then
      if (List.range blockCacheCapacity).any fun i =>
          (w.cache.entries i).state = .writeback ∧ (w.cache.entries i).deviceId = deviceId then
        (.error .blocked, w)
      else (.ok (), w)
    else
      match writebackLoop io (some deviceId) blockCacheCapacity 0 w with
      | ((_, some e), w) => (.error (.err e), w)
      | ((0, none), w) => (.error (.err .state), w)
      | ((_ + 1, none), w) => syncLoop deviceId fuel w

/-- `found` is the answer of `block_find` for the id. -/
def blockCacheSyncDevice (deviceId : DeviceId) (found : Except Err Device) (w : World) :
    Except Stop Unit × World :=
  if !blockCacheTextTerminated deviceId then (.error (.err .invalid), w)
  else
    match found with
    | .error e => (.error (.err e), w)
    | .ok device =>
      if !device.online then (.error (.err .disk), w)
      else if w.cache.syncActive then (.error (.err .state), w)
      else
        let w := { w with cache := { w.cache with syncActive := true } }
        let (result, w) := syncLoop io deviceId (blockCacheCapacity + 1) w
        let (result, w) : Except Stop Unit × World := match result with
          | .ok () =>
            if device.capFlush then
              match w.physicalFlush io with
              | (none, w) => (.ok (), w)
              | (some e, w) => (.error (.err e), w)
            else (.ok (), w)
          | .error e => (.error e, w)
        let durability := match result with
          | .error _ => .error
          | .ok _ => if device.capFlush then .ready else .degraded
        (result, { w with cache := { w.cache with syncActive := false, durability := durability } })

end Calls

/-! ### Dropping entries -/

/-- Entries `block_cache_clear` and the range invalidation will not drop. -/
def Block.busy (b : Block) : Bool :=
  b.state = .reading ∨ b.references ≠ 0 ∨ b.pins ≠ 0 ∨ b.state = .dirty ∨ b.state = .writeback

def Cache.releaseIf (p : Block → Bool) (c : Cache) (i : Nat) : Cache :=
  if (c.entries i).state ≠ .free ∧ p (c.entries i).toBlock then c.release i else c

/-- Release, in index order, the entries that are in use and that `p` selects. -/
def Cache.releaseWhere (c : Cache) (p : Block → Bool) : Cache :=
  (List.range blockCacheCapacity).foldl (Cache.releaseIf p) c

def blockCacheClear (c : Cache) : Except Err Unit × Cache :=
  if (List.range blockCacheCapacity).any fun i =>
      (c.entries i).state ≠ .free ∧ (c.entries i).busy then (.error .state, c)
  else (.ok (), c.releaseWhere fun _ => true)

def lbaInRange (value start count : Nat) : Bool := start ≤ value ∧ value - start < count

def rangeValid (lba count : Nat) : Bool := count ≠ 0 ∧ lba ≤ 4294967295 - (count - 1)

def blockCacheInvalidateDevice (deviceId : DeviceId) (c : Cache) : Except Err Unit × Cache :=
  if !blockCacheTextTerminated deviceId then (.error .invalid, c)
  else if (List.range blockCacheCapacity).any fun i =>
      (c.entries i).state ≠ .free ∧ (c.entries i).deviceId = deviceId
        ∧ ¬ (c.entries i).eligible then (.error .state, c)
  else (.ok (), c.releaseWhere fun b => b.deviceId = deviceId)

def blockCacheInvalidateRange (deviceId : DeviceId) (lba sectorCount : Nat) (c : Cache) :
    Except Err Unit × Cache :=
  if !blockCacheTextTerminated deviceId then (.error .invalid, c)
  else if !rangeValid lba sectorCount then
    (.error (if sectorCount ≠ 0 then .overflow else .invalid), c)
  else if (List.range blockCacheCapacity).any fun i =>
      (c.entries i).state ≠ .free ∧ (c.entries i).deviceId = deviceId
        ∧ lbaInRange (c.entries i).lba lba sectorCount ∧ (c.entries i).busy then (.error .state, c)
  else (.ok (), c.releaseWhere fun b => b.deviceId = deviceId ∧ lbaInRange b.lba lba sectorCount)

/-! ### `block_cache_init` and `block_cache_validate_state` -/

def initialEntry : Entry where
  deviceId := []
  lba := 0
  blockSize := 0
  data := fun _ => 0
  state := .free
  references := 0
  pins := 0
  generation := 1
  status := some .state
  dirtyFirst := 0
  dirtyEnd := 0
  hashNext := none
  lruPrevious := none
  lruNext := none

def blockCacheInit : Cache where
  entries := fun _ => initialEntry
  buckets := fun _ => none
  lruHead := none
  lruTail := none
  syncActive := false
  durability := .ready

/-- One chain, with the bound on its length the source counts in `guard`; `seen`
are the entries met so far in any chain. -/
def Cache.validateBucket (c : Cache) (bucket : Nat) :
    Nat → Option Nat → List Nat → Option (List Nat)
  | _, none, seen => some seen
  | 0, some _, _ => none
  | guard + 1, some i, seen =>
    if blockCacheCapacity ≤ i then none
    else if i ∈ seen then none
    else if (c.entries i).state = .free ∨ !blockCacheTextTerminated (c.entries i).deviceId
        ∨ (c.entries i).blockSize ≠ blockCacheBlockSize ∨ (c.entries i).bucket ≠ bucket then none
    else c.validateBucket bucket guard (c.entries i).hashNext (i :: seen)

/-- The walk along the LRU list: the entries met and the last of them. -/
def Cache.validateLru (c : Cache) :
    Nat → Option Nat → Option Nat → List Nat → Option (Option Nat × List Nat)
  | _, previous, none, seen => some (previous, seen)
  | 0, _, some _, _ => none
  | guard + 1, previous, some i, seen =>
    if blockCacheCapacity ≤ i then none
    else if i ∈ seen then none
    else if !lruState (c.entries i).state ∨ (c.entries i).lruPrevious ≠ previous then none
    else c.validateLru guard (some i) (c.entries i).lruNext (i :: seen)

/-- The checks of one entry once both walks are done. -/
def validateEntry (e : Entry) (hashSeen lruSeen : Bool) : Bool :=
  if e.state = .free then
    e.deviceId = [] ∧ e.hashNext = none ∧ e.lruPrevious = none ∧ e.lruNext = none
      ∧ e.references = 0 ∧ e.pins = 0 ∧ e.dirtyFirst = 0 ∧ e.dirtyEnd = 0
  else
    hashSeen ∧ (lruState e.state = lruSeen)
      ∧ blockCacheTextTerminated e.deviceId ∧ e.generation ≠ 0
      ∧ e.blockSize = blockCacheBlockSize
      ∧ (lruState e.state ∨ (e.lruPrevious = none ∧ e.lruNext = none))
      ∧ (e.state = .dirty ∨ e.state = .writeback →
          e.dirtyFirst < e.dirtyEnd ∧ e.dirtyEnd ≤ blockCacheBlockSize)
      ∧ (e.state = .valid ∨ e.state = .error → e.dirtyFirst = 0 ∧ e.dirtyEnd = 0)
      ∧ (e.state = .writeback → e.pins ≠ 0 ∧ e.references ≠ 0)

def Cache.validateBuckets (c : Cache) : Option (List Nat) :=
  (List.range blockCacheHashBuckets).foldl (fun seen bucket =>
    seen.bind fun seen => c.validateBucket bucket blockCacheCapacity (c.buckets bucket) seen)
    (some [])

def blockCacheValidateState (c : Cache) : Except Err Unit :=
  match c.validateBuckets with
  | none => .error .state
  | some hashSeen =>
    match c.validateLru blockCacheCapacity none c.lruHead [] with
    | none => .error .state
    | some (previous, lruSeen) =>
      if previous ≠ c.lruTail then .error .state
      else if c.lruHead.any fun h => (c.entries h).lruPrevious ≠ none then .error .state
      else if c.lruTail.any fun t => (c.entries t).lruNext ≠ none then .error .state
      else if !(List.range blockCacheCapacity).all fun i =>
          validateEntry (c.entries i) (i ∈ hashSeen) (i ∈ lruSeen) then .error .state
      else if Durability.error.level < c.durability.level then .error .state
      else .ok ()

end ZephyrOS.BlockCache
