import ZephyrOS.Core.Errors
import ZephyrOS.Lib.Disk
import ZephyrOS.Lib.Packed12

/-!
# The FAT12 driver: mounting, reading, and the atomic write of a root file

`fs/fat12.c`. A mounted volume is the boot parameters, the three region starts
derived from them, and two byte buffers: the first copy of the FAT and the root
directory. Buffers are total functions; what they hold past the bytes loaded into
them is whatever the heap held, and the last sector of a root directory that does
not fill it is written back from there.

The device is read through `read`, which may fail on any sector, and written
through `Lib.writeAll`: a log of the sector writes issued, of which the endings
come from outside. `ata_write_sectors` reports a failure also after all the words of a
sector went out, so a write that is reported failed may have stored its data.
Allocation always succeeds.
-/

namespace ZephyrOS.Fat12

open Lib

def clusterFree : Nat := 0x000
def clusterBad : Nat := 0xFF7
def clusterEnd : Nat := 0xFF8
def fat12ChainLimit : Nat := 4096
def fat12AtomicMaxClusters : Nat := 128
def fat12AttributesPreserve : UInt8 := 0xFF

/-! ### Boot parameters -/

/-- The fields of the boot sector the driver reads. -/
structure Bpb where
  bytesPerSector : Nat
  sectorsPerCluster : Nat
  reservedSectors : Nat
  numFats : Nat
  rootEntries : Nat
  totalSectors : Nat
  sectorsPerFat : Nat
  largeSectorCount : Nat

def parseBpb (boot : Sector) : Bpb :=
  let mem := Sector.byte boot
  { bytesPerSector := read16 mem 11
    sectorsPerCluster := (mem 13).toNat
    reservedSectors := read16 mem 14
    numFats := (mem 16).toNat
    rootEntries := read16 mem 17
    totalSectors := read16 mem 19
    sectorsPerFat := read16 mem 22
    largeSectorCount := read32 mem 32 }

/-- `total_sectors`, or `large_sector_count` where that is zero. -/
def Bpb.sectors (b : Bpb) : Nat := if b.totalSectors = 0 then b.largeSectorCount else b.totalSectors

/-- `deviceSectors` is the size of the ATA device, zero when it is not known; without
a device there is none. -/
def fat12ValidateBpb (b : Bpb) (device : Option Nat) : Except Err Unit :=
  match device with
  | none => .error .notFound
  | some deviceSectors =>
    if deviceSectors ≠ 0 ∧ deviceSectors < b.sectors then .error .disk
    else if b.bytesPerSector ≠ 512 ∨ b.sectorsPerCluster = 0 ∨ 128 < b.sectorsPerCluster
        ∨ b.sectorsPerCluster &&& (b.sectorsPerCluster - 1) ≠ 0
        ∨ b.reservedSectors = 0 ∨ b.numFats = 0 ∨ 4 < b.numFats
        ∨ b.rootEntries = 0 ∨ b.sectorsPerFat = 0 ∨ b.sectors = 0 then .error .invalid
    else
      let rootSectors := (b.rootEntries * 32 + 511) / 512
      let dataStart := b.reservedSectors + b.numFats * b.sectorsPerFat + rootSectors
      if b.sectors ≤ dataStart then .error .invalid
      else
        let clusters := (b.sectors - dataStart) / b.sectorsPerCluster
        if 4085 ≤ clusters then .error .notFound
        else if clusters < 1 then .error .invalid
        else if b.sectorsPerFat * 512 < ((clusters + 2) * 3 + 1) / 2 then .error .invalid
        else .ok ()

/-! ### A mounted volume -/

structure Fs where
  bpb : Bpb
  fatStart : Nat
  rootStart : Nat
  dataStart : Nat
  fat : Nat → UInt8
  rootDir : Nat → UInt8

def Fs.totalClusters (fs : Fs) : Nat :=
  if fs.bpb.sectorsPerCluster = 0 then 0
  else if fs.bpb.sectors ≤ fs.dataStart then 0
  else (fs.bpb.sectors - fs.dataStart) / fs.bpb.sectorsPerCluster

def Fs.clusterValid (fs : Fs) (cluster : Nat) : Bool :=
  2 ≤ cluster ∧ fs.totalClusters ≤ 0xFFFFFFFF - 2 ∧ cluster < fs.totalClusters + 2

def Fs.clusterLba (fs : Fs) (cluster : Nat) : Except Err Nat :=
  if fs.clusterValid cluster = false then .error .invalid
  else if 0xFFFFFFFF / fs.bpb.sectorsPerCluster < cluster - 2 then .error .overflow
  else
    let offset := (cluster - 2) * fs.bpb.sectorsPerCluster
    if 0xFFFFFFFF - offset < fs.dataStart then .error .overflow
    else .ok (fs.dataStart + offset)

/-- `kmemcpy(mem + start, sector, size)`. -/
def copyIn (mem : Nat → UInt8) (start size : Nat) (s : Sector) : Nat → UInt8 :=
  fun k => if start ≤ k ∧ k < start + size then Sector.byte s (k - start) else mem k

/-- Load `size` bytes from the sectors at `start` into `mem`, sector by sector, the last
one cut off where `size` ends. -/
def loadSectors (read : Nat → Option Sector) (start size : Nat) (mem : Nat → UInt8) :
    Nat → Option (Nat → UInt8)
  | 0 => some mem
  | n + 1 => do
    let loaded ← loadSectors read start size mem n
    let s ← read (start + n)
    some (copyIn loaded (n * 512) (min (size - n * 512) 512) s)

/-- The volume that `b` lays out, with its two buffers. -/
def Fs.layout (b : Bpb) (fat rootDir : Nat → UInt8) : Fs where
  bpb := b
  fatStart := b.reservedSectors
  rootStart := b.reservedSectors + b.numFats * b.sectorsPerFat
  dataStart := b.reservedSectors + b.numFats * b.sectorsPerFat
    + (b.rootEntries * 32 + b.bytesPerSector - 1) / b.bytesPerSector
  fat := fat
  rootDir := rootDir

/-- Mount. `fatHeap` and `rootHeap` are what the two buffers hold when allocated. -/
def fat12Init (device : Option Nat) (read : Nat → Option Sector) (fatHeap rootHeap : Nat → UInt8) :
    Except Err Fs :=
  match read 0 with
  | none => .error .disk
  | some boot =>
    let b := parseBpb boot
    match fat12ValidateBpb b device with
    | .error e => .error e
    | .ok () =>
      let fs := Fs.layout b fatHeap rootHeap
      let fatSize := b.sectorsPerFat * b.bytesPerSector
      match loadSectors read fs.fatStart fatSize fatHeap b.sectorsPerFat with
      | none => .error .disk
      | some fat =>
        let rootSize := b.rootEntries * 32
        let rootSectors := (rootSize + b.bytesPerSector - 1) / b.bytesPerSector
        match loadSectors read fs.rootStart rootSize rootHeap rootSectors with
        | none => .error .disk
        | some rootDir => .ok { fs with fat := fat, rootDir := rootDir }

/-- The entry of `cluster` lies within the FAT. -/
def Fs.entryInFat (fs : Fs) (cluster : Nat) : Bool :=
  fs.clusterValid cluster ∧ cluster + cluster / 2 + 1 < fs.bpb.sectorsPerFat * fs.bpb.bytesPerSector

def Fs.getCluster (fs : Fs) (cluster : Nat) : Nat :=
  if fs.entryInFat cluster then get12 fs.fat cluster else clusterBad

def Fs.setCluster (fs : Fs) (cluster value : Nat) : Fs :=
  if fs.entryInFat cluster then { fs with fat := set12 fs.fat cluster value } else fs

/-! ### Names -/

def upper (c : UInt8) : UInt8 := if 97 ≤ c ∧ c ≤ 122 then c - 32 else c

/-- `A`-`Z`, `0`-`9` or `_`. -/
def nameChar (c : UInt8) : Bool := (65 ≤ c ∧ c ≤ 90) ∨ (48 ≤ c ∧ c ≤ 57) ∨ c = 95

/-- `text` padded with blanks to `n` characters. -/
def padTo (n : Nat) (text : List UInt8) : List UInt8 := text ++ List.replicate (n - text.length) 32

/-- The characters before the dot, in capitals; the rest starts at the dot. A zero byte
ends the string. -/
def encodeBase : Nat → List UInt8 → Except Err (List UInt8 × List UInt8)
  | _, [] => .ok ([], [])
  | room, c :: rest =>
    if c = 0 then .ok ([], [])
    else if c = 46 then .ok ([], c :: rest)
    else if room = 0 ∨ nameChar (upper c) = false then .error .invalid
    else
      match encodeBase (room - 1) rest with
      | .error e => .error e
      | .ok (text, rest') => .ok (upper c :: text, rest')

/-- The characters after the dot, in capitals. -/
def encodeExtension : Nat → List UInt8 → Except Err (List UInt8)
  | _, [] => .ok []
  | room, c :: rest =>
    if c = 0 then .ok []
    else if room = 0 ∨ nameChar (upper c) = false then .error .invalid
    else
      match encodeExtension (room - 1) rest with
      | .error e => .error e
      | .ok text => .ok (upper c :: text)

/-- The eleven characters of an 8.3 name. `/`, `\`, a blank and a second dot are
rejected with the characters that are not letters, digits or `_`. -/
def fat12EncodeRootName (filename : List UInt8) : Except Err (List UInt8) :=
  if filename.headD 0 = 0 then .error .null
  else
    match encodeBase 8 filename with
    | .error e => .error e
    | .ok (base, rest) =>
      if base = [] ∨ rest = [] then .error .invalid
      else
        match encodeExtension 3 rest.tail with
        | .error e => .error e
        | .ok extension =>
          if extension = [] then .error .invalid
          else .ok (padTo 8 base ++ padTo 3 extension)

/-- At most `room` characters in capitals, up to the end or a dot if `dot` is set, and
what follows them. -/
def scanName (dot : Bool) : Nat → List UInt8 → List UInt8 × List UInt8
  | 0, text => ([], text)
  | _ + 1, [] => ([], [])
  | room + 1, c :: rest =>
    if c = 0 ∨ (dot = true ∧ c = 46) then ([], c :: rest)
    else (upper c :: (scanName dot room rest).1, (scanName dot room rest).2)

/-- The extension, if what follows the base starts with a dot. -/
def scanExtension : List UInt8 → List UInt8
  | [] => []
  | c :: rest => if c = 46 then (scanName false 3 rest).1 else []

/-- The eleven characters `fat12_find_entry` looks for. -/
def entryName (filename : List UInt8) : List UInt8 :=
  padTo 8 (scanName true 8 filename).1 ++ padTo 3 (scanExtension (scanName true 8 filename).2)

/-! ### The root directory -/

/-- `fat12_strncmp(a, b, n) == 0`, from index `i` on. -/
def strncmpEq (a b : Nat → UInt8) (i : Nat) : Nat → Bool
  | 0 => true
  | n + 1 => if a i ≠ b i then false else if a i = 0 then true else strncmpEq a b (i + 1) n

def entryByte (root : Nat → UInt8) (index k : Nat) : UInt8 := root (32 * index + k)

def entryAttributes (root : Nat → UInt8) (index : Nat) : UInt8 := entryByte root index 11

def entryClusterLow (root : Nat → UInt8) (index : Nat) : Nat := read16 root (32 * index + 26)

def entryFileSize (root : Nat → UInt8) (index : Nat) : Nat := read32 root (32 * index + 28)

/-- The scan of `fat12_find_root_index` and `fat12_find_entry`, from `index` on. -/
def findFrom (root : Nat → UInt8) (name : List UInt8) (index : Nat) : Nat → Option Nat
  | 0 => none
  | n + 1 =>
    if entryByte root index 0 = 0 then none
    else if entryByte root index 0 = 0xE5 ∨ entryAttributes root index &&& 0x08 ≠ 0 then
      findFrom root name (index + 1) n
    else if strncmpEq (entryByte root index) (fun k => name.getD k 0) 0 11 then some index
    else findFrom root name (index + 1) n

def fat12FindRootIndex (fs : Fs) (encoded : List UInt8) : Option Nat :=
  findFrom fs.rootDir encoded 0 fs.bpb.rootEntries

def fat12FindEntry (fs : Fs) (filename : List UInt8) : Option Nat :=
  findFrom fs.rootDir (entryName filename) 0 fs.bpb.rootEntries

def findSlotFrom (root : Nat → UInt8) (index : Nat) : Nat → Option Nat
  | 0 => none
  | n + 1 =>
    if entryByte root index 0 = 0 ∨ entryByte root index 0 = 0xE5 then some index
    else findSlotFrom root (index + 1) n

def fat12FindRootSlot (fs : Fs) : Except Err Nat :=
  match findSlotFrom fs.rootDir 0 fs.bpb.rootEntries with
  | some index => .ok index
  | none => .error .overflow

/-! ### Reading a root file -/

/-- The sectors of one cluster, from the `s`-th on; `acc` is what was read so far. -/
def readSectors (read : Nat → Option Sector) (fileSize maxSize lba s : Nat) (acc : List UInt8) :
    Nat → Option (List UInt8)
  | 0 => some acc
  | n + 1 =>
    match read (lba + s) with
    | none => none
    | some sector =>
      if fileSize < acc.length then none
      else
        let toCopy := min (min 512 (fileSize - acc.length)) (maxSize - acc.length)
        let acc' := acc ++ (List.range toCopy).map (Sector.byte sector)
        if fileSize ≤ acc'.length ∨ maxSize ≤ acc'.length then some acc'
        else readSectors read fileSize maxSize lba (s + 1) acc' n

/-- The walk down the chain, for at most the given number of clusters. -/
def readChain (fs : Fs) (read : Nat → Option Sector) (fileSize maxSize : Nat) :
    Nat → Nat → List UInt8 → Option (List UInt8)
  | 0, _, acc => some acc
  | steps + 1, cluster, acc =>
    if fs.clusterValid cluster = true ∧ acc.length < maxSize then
      match fs.clusterLba cluster with
      | .error _ => none
      | .ok lba =>
        match readSectors read fileSize maxSize lba 0 acc fs.bpb.sectorsPerCluster with
        | none => none
        | some acc' => readChain fs read fileSize maxSize steps (fs.getCluster cluster) acc'
    else some acc

/-- The bytes read, or `none` for `-1`. -/
def fat12ReadFile (fs : Fs) (read : Nat → Option Sector) (filename : List UInt8) (maxSize : Nat) :
    Option (List UInt8) :=
  match fat12FindEntry fs filename with
  | none => none
  | some index =>
    let cluster := entryClusterLow fs.rootDir index
    let fileSize := entryFileSize fs.rootDir index
    if fileSize ≠ 0 ∧ fs.clusterValid cluster = false then none
    else readChain fs read fileSize maxSize fat12ChainLimit cluster []

/-! ### The atomic write -/

/-- The sector writes of `fat12_flush_fats`. -/
def fatWrites (fs : Fs) : List (Nat × Sector) :=
  (List.range fs.bpb.numFats).flatMap fun copy =>
    (List.range fs.bpb.sectorsPerFat).map fun sector =>
      (fs.fatStart + copy * fs.bpb.sectorsPerFat + sector, sectorOf fs.fat (sector * 512))

def fat12FlushFats (io : Nat → Nat → Ending) (fs : Fs) (log : List Write) : Bool × List Write :=
  writeAll io (fatWrites fs) log

def fat12FlushRootSector (io : Nat → Nat → Ending) (fs : Fs) (entryIndex : Nat) (log : List Write) :
    Bool × List Write :=
  writeAll io [(fs.rootStart + entryIndex / 16, sectorOf fs.rootDir (entryIndex / 16 * 512))] log

/-- The walk of `fat12_release_chain`, for at most the given number of clusters. -/
def releaseFrom : Nat → Nat → Fs → Fs
  | 0, _, fs => fs
  | steps + 1, cluster, fs =>
    if 2 ≤ cluster ∧ cluster < clusterEnd then
      releaseFrom steps (fs.getCluster cluster) (fs.setCluster cluster clusterFree)
    else fs

def fat12ReleaseChain (fs : Fs) (firstCluster : Nat) : Fs :=
  releaseFrom fat12ChainLimit firstCluster fs

/-- The first `wanted` free clusters of the `n` from `cluster` on. -/
def selectFrom (fs : Fs) (cluster wanted : Nat) : Nat → List Nat
  | 0 => []
  | n + 1 =>
    if wanted = 0 then []
    else if fs.getCluster cluster = clusterFree then
      cluster :: selectFrom fs (cluster + 1) (wanted - 1) n
    else selectFrom fs (cluster + 1) wanted n

def fat12SelectAtomicClusters (fs : Fs) (clusterCount : Nat) : Except Err (List Nat) :=
  let totalClusters := (fs.bpb.sectors - fs.dataStart) / fs.bpb.sectorsPerCluster
  let clusters := selectFrom fs 2 clusterCount totalClusters
  if clusters.length = clusterCount then .ok clusters else .error .overflow

/-- One sector of the payload: `chunk` bytes from `written` on, then zeros. -/
def payloadSector (data : List UInt8) (written chunk : Nat) : Sector :=
  fun j => if j < chunk then data.getD (written + j) 0 else 0

/-- The writes of the sectors of one cluster, from the `s`-th on, and the bytes written
after them. The sector that completes the payload is the last. -/
def clusterWrites (data : List UInt8) (lba s written : Nat) : Nat → List (Nat × Sector) × Nat
  | 0 => ([], written)
  | n + 1 =>
    let chunk := min (data.length - written) 512
    let item := (lba + s, payloadSector data written chunk)
    if written + chunk = data.length then ([item], written + chunk)
    else
      let r := clusterWrites data lba (s + 1) (written + chunk) n
      (item :: r.1, r.2)

/-- The writes of the whole payload, and the bytes written after them. -/
def payloadWrites (fs : Fs) (data : List UInt8) (written : Nat) :
    List Nat → List (Nat × Sector) × Nat
  | [] => ([], written)
  | cluster :: clusters =>
    let lba := fs.dataStart + (cluster - 2) * fs.bpb.sectorsPerCluster
    let here := clusterWrites data lba 0 written fs.bpb.sectorsPerCluster
    let later := payloadWrites fs data here.2 clusters
    (here.1 ++ later.1, later.2)

def fat12WriteAtomicClusters (io : Nat → Nat → Ending) (fs : Fs) (clusters : List Nat)
    (data : List UInt8) (log : List Write) : Bool × List Write :=
  let w := payloadWrites fs data 0 clusters
  let r := writeAll io w.1 log
  (r.1 && w.2 = data.length, r.2)

/-- Chain the clusters together; the last one ends the chain. -/
def linkClusters (fs : Fs) : List Nat → Fs
  | [] => fs
  | cluster :: rest => linkClusters (fs.setCluster cluster (rest.headD clusterEnd)) rest

/-- The 32 bytes of a new directory entry. -/
def newEntry (name : List UInt8) (attributes : UInt8) (cluster size : Nat) (k : Nat) : UInt8 :=
  if k < 11 then name.getD k 0
  else if k = 11 then attributes
  else if k = 26 then UInt8.ofNat cluster
  else if k = 27 then UInt8.ofNat (cluster >>> 8)
  else if k = 28 then UInt8.ofNat size
  else if k = 29 then UInt8.ofNat (size >>> 8)
  else if k = 30 then UInt8.ofNat (size >>> 16)
  else if k = 31 then UInt8.ofNat (size >>> 24)
  else 0

def setEntry (root : Nat → UInt8) (index : Nat) (bytes : Nat → UInt8) : Nat → UInt8 :=
  fun k => if k / 32 = index then bytes (k % 32) else root k

/-- What a call answers, the volume as it is in memory afterwards, and the writes. -/
abbrev Outcome := Except Err Unit × Fs × List Write

/-- Drop the new chain again after a failed write. -/
def undo (io : Nat → Nat → Ending) (fs : Fs) (firstCluster : Nat) (log : List Write) : Outcome :=
  let fs' := fat12ReleaseChain fs firstCluster
  (.error .disk, fs', (fat12FlushFats io fs' log).2)

/-- The attributes of the new entry. -/
def newAttributes (fs : Fs) (entryIndex : Nat) (existing : Bool) (attributes : UInt8) : UInt8 :=
  if attributes = fat12AttributesPreserve then
    if existing then entryAttributes fs.rootDir entryIndex else 0x20
  else attributes

/-- With the entry published, release the chain of the one it replaced. A failure here
is only logged. -/
def releaseOld (io : Nat → Nat → Ending) (fs : Fs) (existing : Bool) (previousCluster : Nat)
    (log : List Write) : Outcome :=
  if existing = true ∧ 2 ≤ previousCluster then
    let released := fat12ReleaseChain fs previousCluster
    (.ok (), released, (fat12FlushFats io released log).2)
  else (.ok (), fs, log)

/-- With the new chain in the FAT, publish the entry. -/
def publish (io : Nat → Nat → Ending) (fs : Fs) (encoded : List UInt8) (entryIndex : Nat)
    (existing : Bool) (attributes : UInt8) (firstCluster size : Nat) (log : List Write) : Outcome :=
  let entry := newEntry encoded (newAttributes fs entryIndex existing attributes) firstCluster size
  let published := { fs with rootDir := setEntry fs.rootDir entryIndex entry }
  let r := fat12FlushRootSector io published entryIndex log
  if r.1 = false then undo io fs firstCluster r.2
  else releaseOld io published existing (entryClusterLow fs.rootDir entryIndex) r.2

/-- From the chosen entry on: allocate, write the payload, chain it, publish. -/
def replaceEntry (io : Nat → Nat → Ending) (fs : Fs) (encoded : List UInt8) (entryIndex : Nat)
    (existing : Bool) (data : List UInt8) (attributes : UInt8) : Outcome :=
  let clusterSize := fs.bpb.sectorsPerCluster * fs.bpb.bytesPerSector
  if fs.bpb.bytesPerSector = 0 ∨ 512 < fs.bpb.bytesPerSector ∨ clusterSize = 0 then
    (.error .invalid, fs, [])
  else
    let clusterCount := (data.length + clusterSize - 1) / clusterSize
    if clusterCount = 0 ∨ fat12AtomicMaxClusters < clusterCount then (.error .overflow, fs, [])
    else
      match fat12SelectAtomicClusters fs clusterCount with
      | .error e => (.error e, fs, [])
      | .ok clusters =>
        let w := fat12WriteAtomicClusters io fs clusters data []
        if w.1 = false then (.error .disk, fs, w.2)
        else
          let linked := linkClusters fs clusters
          let f := fat12FlushFats io linked w.2
          if f.1 = false then undo io linked (clusters.headD 0) f.2
          else publish io linked encoded entryIndex existing attributes (clusters.headD 0)
            data.length f.2

def fat12AtomicWriteRoot (io : Nat → Nat → Ending) (fs : Fs) (filename data : List UInt8)
    (attributes : UInt8) (requireExisting : Bool) : Outcome :=
  if data.length = 0 ∨ 64 * 1024 < data.length then (.error .overflow, fs, [])
  else
    match fat12EncodeRootName filename with
    | .error e => (.error e, fs, [])
    | .ok encoded =>
      match fat12FindRootIndex fs encoded with
      | some entryIndex => replaceEntry io fs encoded entryIndex true data attributes
      | none =>
        if requireExisting then (.error .notFound, fs, [])
        else
          match fat12FindRootSlot fs with
          | .error _ => (.error .overflow, fs, [])
          | .ok entryIndex => replaceEntry io fs encoded entryIndex false data attributes

end ZephyrOS.Fat12
